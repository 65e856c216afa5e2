import ScriptMachine.Compiler.Scope
import ScriptMachine.Value.Arith
/-!
# Constant ids of values

The compiler pools the numbers and texts of literals (`Resolver.numberId`,
`Resolver.textId`). A value of any kind has a constant id too: a text is pooled as itself and
any other value as the number it coerces to, so nothing is pooled as `0` and a truth value as
`1` or `0`; a value that coerces to no number is pooled as `0`.
-/

namespace ScriptMachine.Compiler.Resolver

def constantId : Value → ResolveM Nat
  | .str s => textId s
  | v => numberId ((toNumber v).getD 0)

end ScriptMachine.Compiler.Resolver
