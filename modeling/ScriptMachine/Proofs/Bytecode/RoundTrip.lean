import Mathlib.Data.List.SplitBy
import ScriptMachine.Bytecode.Listing
import ScriptMachine.Proofs.Bytecode.WellFormed
/-!
# Round trips of instructions

Three ways of writing an instruction agree with one another: packing operands into a word and
reading them back (`Instruction.encode_fits`), printing an instruction and parsing it back
(`parseInstruction_line`), and retargeting a jump (`Chunk.patchJump_spec`).
-/

namespace ScriptMachine.Bytecode

open Text

/-! ## Operands and words -/

def Op.layout (op : Op) : Layout := op.info.2.1

def Op.arity (op : Op) : Nat := op.info.2.2

/-- Operands that fit their fields, in the order a listing shows them: `A` in `[0, 255]`, `B` and
`C` in `[0, 511]`, `Bx` in `[0, 2^18 - 1]` and `sBx` in `[-maxSBx, maxSBx + 1]`. -/
def Layout.Fits : Layout → List Int → Prop
  | .abc, [a, b, c] => 0 ≤ a ∧ a ≤ 255 ∧ 0 ≤ b ∧ b ≤ 511 ∧ 0 ≤ c ∧ c ≤ 511
  | .abx, [a, bx] => 0 ≤ a ∧ a ≤ 255 ∧ 0 ≤ bx ∧ bx ≤ 262143
  | .asbx, [a, sbx] => 0 ≤ a ∧ a ≤ 255 ∧ -maxSBx ≤ sbx ∧ sbx ≤ maxSBx + 1
  | _, _ => False

instance (l : Layout) (ops : List Int) : Decidable (l.Fits ops) := by
  unfold Layout.Fits
  split <;> infer_instance

theorem Op.code_getElem_all : ∀ n : Fin Op.all.length, Op.all[n].code = n := by
  decide

theorem Op.code_of_ofCode? {n : Nat} {op : Op} (h : Op.ofCode? n = some op) : op.code = n := by
  obtain ⟨hlt, rfl⟩ := List.getElem?_eq_some_iff.1 h
  exact Op.code_getElem_all ⟨n, hlt⟩

@[simp] theorem opLayout_code (op : Op) : opLayout op.code = op.layout := by
  simp [opLayout, Op.ofCode?_code, Op.layout]

@[simp] theorem opArity_code (op : Op) : opArity op.code = op.arity := by
  simp [opArity, Op.ofCode?_code, Op.arity]

theorem Op.arity_cases (op : Op) :
    op.layout = .abc ∧ (op.arity = 2 ∨ op.arity = 3) ∨ op.layout ≠ .abc ∧ op.arity = 2 := by
  cases op <;> simp [Op.layout, Op.arity, Op.info]

namespace Instruction

theorem bits_of_fits {w : Nat} {x : Int} (h0 : 0 ≤ x) (h : x < (Nat.pow 2 w : Nat)) :
    (bits w x : Int) = x := by
  simp only [bits, Int.emod_eq_of_lt h0 h]
  omega

theorem ext_word {i j : Instruction} (h : i.word = j.word) : i = j := by
  cases i
  cases j
  cases h
  rfl

theorem opcode_eq_of_op? {i : Instruction} {op : Op} (h : i.op? = some op) : i.opcode = op.code :=
  (Op.code_of_ofCode? h).symm

theorem abc_fields (i : Instruction) : abc i.opcode i.a i.b i.c = i := by
  have hw := i.word.toNat_lt
  have hword := word_abc i.opcode i.a i.b i.c
  simp only [bits_ofNat, Nat.pow_eq, Nat.reducePow] at hword
  have heq : (abc i.opcode i.a i.b i.c).word = i.word := by
    apply UInt32.toNat_inj.1
    rw [hword]
    simp only [opcode, Instruction.a, Instruction.b, Instruction.c]
    omega
  exact ext_word heq

theorem abx_fields (i : Instruction) : abx i.opcode i.a i.bx = i := by
  have hw := i.word.toNat_lt
  have hword := word_abx i.opcode i.a i.bx
  simp only [bits_ofNat, Nat.pow_eq, Nat.reducePow] at hword
  have heq : (abx i.opcode i.a i.bx).word = i.word := by
    apply UInt32.toNat_inj.1
    rw [hword]
    simp only [opcode, Instruction.a, Instruction.bx]
    omega
  exact ext_word heq

/-- Operands that fit their fields are read back from the word they build, cut to what a
listing shows. -/
theorem encode_fits {op : Op} {ops : List Int} (h : op.layout.Fits ops) :
    (encode op.code ops).op? = some op ∧ (encode op.code ops).operands = ops.take op.arity := by
  have hmod : op.code % 64 = op.code := Nat.mod_eq_of_lt (Op.code_lt op)
  unfold encode
  rw [opLayout_code]
  cases hl : op.layout <;> rw [hl] at h
  case abc =>
    match ops, h with
    | [a, b, c], ⟨ha0, ha, hb0, hb, hc0, hc⟩ =>
      have ha' : (bits 8 a : Int) = a := bits_of_fits ha0 (by simp only [Nat.pow_eq]; omega)
      have hb' : (bits 9 b : Int) = b := bits_of_fits hb0 (by simp only [Nat.pow_eq]; omega)
      have hc' : (bits 9 c : Int) = c := bits_of_fits hc0 (by simp only [Nat.pow_eq]; omega)
      refine ⟨op?_abc op _ _ _, ?_⟩
      simp [operands, hmod, hl, ha', hb', hc']
  case abx =>
    match ops, h with
    | [a, bx], ⟨ha0, ha, hb0, hb⟩ =>
      have ha' : (bits 8 a : Int) = a := bits_of_fits ha0 (by simp only [Nat.pow_eq]; omega)
      have hb' : (bits 18 bx : Int) = bx := bits_of_fits hb0 (by simp only [Nat.pow_eq]; omega)
      refine ⟨op?_abx op _ _, ?_⟩
      simp [operands, hmod, hl, ha', hb']
  case asbx =>
    match ops, h with
    | [a, sbx], ⟨ha0, ha, hs0, hs⟩ =>
      simp only [maxSBx] at hs0 hs
      have ha' : (bits 8 a : Int) = a := bits_of_fits ha0 (by simp only [Nat.pow_eq]; omega)
      -- the offset is stored in excess-`maxSBx` form, which fits eighteen bits
      have hs' : (bits 18 (sbx + maxSBx) : Int) = sbx + maxSBx :=
        bits_of_fits (by simp only [maxSBx]; omega) (by simp only [Nat.pow_eq, maxSBx]; omega)
      refine ⟨op?_asbx op _ _, ?_⟩
      simp [operands, hmod, hl, asbx, Instruction.sbx, ha', hs']

/-- A word with a defined opcode is rebuilt from the operands a listing shows, when the one
field a listing leaves out, `C` of a two-operand `ABC` opcode, is zero. -/
theorem encode_operands {i : Instruction} {op : Op} (hop : i.op? = some op)
    (hc : op.layout = .abc → op.arity = 2 → i.c = 0) : encode i.opcode i.operands = i := by
  have hcode := opcode_eq_of_op? hop
  unfold encode operands
  rw [hcode, opLayout_code, opArity_code]
  rcases Op.arity_cases op with ⟨hl, h2 | h3⟩ | ⟨hl, h2⟩
  · have hc0 := hc hl h2
    simp only [hl, h2]
    rw [← hcode]
    simpa [hc0] using abc_fields i
  · simp only [hl, h3]
    rw [← hcode]
    simpa using abc_fields i
  · cases hl' : op.layout
    · exact absurd hl' hl
    · simp only [h2]
      rw [← hcode]
      simpa using abx_fields i
    · simp only [h2]
      rw [← hcode]
      simpa [asbx, Instruction.sbx] using abx_fields i

theorem length_operands {i : Instruction} {op : Op} (hop : i.op? = some op) :
    i.operands.length = op.arity := by
  unfold operands
  rw [opcode_eq_of_op? hop, opLayout_code, opArity_code]
  rcases Op.arity_cases op with ⟨hl, h2 | h3⟩ | ⟨hl, h2⟩
  · simp [hl, h2]
  · simp [hl, h3]
  · cases hl' : op.layout
    · exact absurd hl' hl
    all_goals simp [h2]

end Instruction

/-! ## Numerals -/

def Fits64 (v : Int) : Prop := -((Nat.pow 2 63 : Nat) : Int) ≤ v ∧ v < ((Nat.pow 2 63 : Nat) : Int)

theorem Instruction.fits64_operands (i : Instruction) : ∀ v ∈ i.operands, Fits64 v := by
  have ha := Instruction.a_lt i
  have hb : i.b < 512 := Nat.mod_lt _ (by decide)
  have hc : i.c < 512 := Nat.mod_lt _ (by decide)
  have hbx : i.bx < 262144 := by
    have := i.word.toNat_lt
    simp only [Instruction.bx]
    omega
  intro v hv
  simp only [Instruction.operands] at hv
  have hv' := List.mem_of_mem_take hv
  split at hv' <;> simp only [List.mem_cons, List.not_mem_nil, or_false] at hv' <;>
    rcases hv' with rfl | rfl | rfl <;>
    simp only [Fits64, Instruction.sbx, maxSBx, Nat.pow_eq] <;> omega

theorem scanDigits_digits : ∀ (l : List Char) (acc : Nat), (∀ c ∈ l, c.isDigit = true) →
    Nat.ofDigitChars 10 l acc < Nat.pow 2 64 → scanDigits acc l = .ok (Nat.ofDigitChars 10 l acc)
  | [], acc, _, _ => by simp [scanDigits]
  | c :: cs, acc, hd, hlt => by
    have hc : c.isDigit = true := hd c (List.mem_cons_self ..)
    have h48 : '0'.toNat = 48 := rfl
    rw [Nat.ofDigitChars_cons, h48] at hlt ⊢
    -- the value read so far never exceeds the whole numeral's
    have hle : 10 * acc + (c.toNat - 48) ≤ Nat.ofDigitChars 10 cs (10 * acc + (c.toNat - 48)) := by
      rw [Nat.ofDigitChars_eq_ofDigitChars_zero]
      have hp : 1 ≤ 10 ^ cs.length := Nat.one_le_pow _ _ (by decide)
      calc 10 * acc + (c.toNat - 48) ≤ 10 ^ cs.length * (10 * acc + (c.toNat - 48)) :=
            Nat.le_mul_of_pos_left _ hp
        _ ≤ _ := Nat.le_add_right _ _
    have hstep : acc * 10 + (c.toNat - 48) = 10 * acc + (c.toNat - 48) := by omega
    simp only [scanDigits, hc, if_true, hstep]
    rw [if_neg (by omega)]
    exact scanDigits_digits cs _ (fun c' hc' => hd c' (List.mem_cons_of_mem _ hc')) hlt

theorem toDigits_isDigit (n : Nat) : ∀ c ∈ Nat.toDigits 10 n, c.isDigit = true :=
  fun _ hc => Nat.isDigit_of_mem_toDigits (by decide) (by decide) hc

theorem ne_sign_of_isDigit {c : Char} (h : c.isDigit = true) : c ≠ '+' ∧ c ≠ '-' := by
  constructor <;> rintro rfl <;> revert h <;> decide

theorem readWordInt_unsigned {s : String} {d : Char} {ds : List Char} (hs : s.toList = d :: ds)
    (hd : ∀ c ∈ d :: ds, c.isDigit = true) (hlt : Nat.ofDigitChars 10 (d :: ds) 0 < Nat.pow 2 63) :
    readWordInt s = .ok (Nat.ofDigitChars 10 (d :: ds) 0 : Int) := by
  obtain ⟨hp, hm⟩ := ne_sign_of_isDigit (hd d (List.mem_cons_self ..))
  have h64 : Nat.ofDigitChars 10 (d :: ds) 0 < Nat.pow 2 64 := by
    simp only [Nat.pow_eq] at hlt ⊢
    omega
  have hscan := scanDigits_digits (d :: ds) 0 hd h64
  unfold readWordInt
  simp only [hs]
  -- the first character is a digit, so there is no sign
  split
  · rename_i r h
    exact absurd (List.cons.inj h).1 hp
  · rename_i r h
    exact absurd (List.cons.inj h).1 hm
  · simp only [List.isEmpty_cons, Bool.false_eq_true, if_false, hscan]
    simp only [Nat.pow_eq] at hlt ⊢
    simp [bind, Except.bind, Nat.not_le.2 hlt]

theorem readWordInt_negative {s : String} {ds : List Char} (hs : s.toList = '-' :: ds)
    (hne : ds ≠ []) (hd : ∀ c ∈ ds, c.isDigit = true)
    (hle : Nat.ofDigitChars 10 ds 0 ≤ Nat.pow 2 63) :
    readWordInt s = .ok (-(Nat.ofDigitChars 10 ds 0 : Int)) := by
  have h64 : Nat.ofDigitChars 10 ds 0 < Nat.pow 2 64 := by
    simp only [Nat.pow_eq] at hle ⊢
    omega
  have hscan := scanDigits_digits ds 0 hd h64
  unfold readWordInt
  simp only [hs, hscan]
  simp only [Nat.pow_eq] at hle ⊢
  cases ds with
  | nil => exact absurd rfl hne
  | cons d ds => simp [bind, Except.bind, Nat.not_lt.2 hle]

/-- The decimal text of a machine integer is read back as it. -/
theorem readWordInt_toString {v : Int} (hv : Fits64 v) : readWordInt (toString v) = .ok v := by
  obtain ⟨lo, hi⟩ := hv
  cases v with
  | ofNat n =>
    simp only [Int.ofNat_eq_natCast] at lo hi ⊢
    have hs : (toString (n : Int)).toList = Nat.toDigits 10 n := by
      simp [Int.toString_eq_repr, Int.repr, Nat.toList_repr]
    obtain ⟨d, ds, hdd⟩ := List.exists_cons_of_ne_nil (Nat.toDigits_ne_nil (b := 10) (n := n))
    rw [hdd] at hs
    have h := readWordInt_unsigned hs (hdd ▸ toDigits_isDigit n)
      (by rw [← hdd, Nat.ofDigitChars_ten_toDigits]; omega)
    rw [h, ← hdd, Nat.ofDigitChars_ten_toDigits]
  | negSucc n =>
    have hs : (toString (Int.negSucc n)).toList = '-' :: Nat.toDigits 10 (n + 1) := by
      simp [Int.toString_eq_repr, Int.repr, Nat.toList_repr]
    have h := readWordInt_negative hs Nat.toDigits_ne_nil (toDigits_isDigit (n + 1))
      (by rw [Nat.ofDigitChars_ten_toDigits]; omega)
    rw [h, Nat.ofDigitChars_ten_toDigits]
    congr 1

theorem toList_pcText (pc : Nat) :
    (pcText pc).toList = List.replicate (4 - (toString pc).length) '0' ++ Nat.toDigits 10 pc := by
  simp [pcText, padLeft, Nat.toString_eq_repr, Nat.toList_repr]

theorem readWordInt_pcText {pc : Nat} (hpc : pc < Nat.pow 2 63) :
    readWordInt (pcText pc) = .ok (pc : Int) := by
  have hdigits : ∀ c ∈ (pcText pc).toList, c.isDigit = true := by
    intro c hc
    rw [toList_pcText] at hc
    rcases List.mem_append.1 hc with hc | hc
    · rw [(List.mem_replicate.1 hc).2]
      decide
    · exact toDigits_isDigit pc c hc
  have hvalue : Nat.ofDigitChars 10 (pcText pc).toList 0 = pc := by
    rw [toList_pcText, Nat.ofDigitChars_append, Nat.ofDigitChars_replicate_zero, Nat.mul_zero,
      Nat.ofDigitChars_ten_toDigits]
  obtain ⟨d, ds, hdd⟩ : ∃ d ds, (pcText pc).toList = d :: ds := by
    rw [toList_pcText]
    obtain ⟨d, ds, h⟩ := List.exists_cons_of_ne_nil (Nat.toDigits_ne_nil (b := 10) (n := pc))
    cases 4 - (toString pc).length with
    | zero => exact ⟨d, ds, by simp [h]⟩
    | succ k => exact ⟨'0', List.replicate k '0' ++ Nat.toDigits 10 pc, rfl⟩
  rw [hdd] at hdigits hvalue
  rw [readWordInt_unsigned hdd hdigits (by rw [hvalue]; exact hpc), hvalue]

theorem Op.readWordInt_mnemonic (op : Op) : (readWordInt op.mnemonic).toBool = false := by
  cases op <;> decide

theorem Op.ofMnemonic?_mnemonic (op : Op) : Op.ofMnemonic? op.mnemonic = some op := by
  cases op <;> decide

/-! ## Words -/

theorem isChain_sameBlank {w : List Char} {β : Bool} (hw : ∀ c ∈ w, isBlank c = β) :
    w.IsChain fun a b => isBlank a == isBlank b := by
  induction w with
  | nil => exact .nil
  | cons a w ih =>
    cases w with
    | nil => exact .singleton a
    | cons b w =>
      refine .cons_cons (by simp [hw a (by simp), hw b (by simp)]) (ih fun c hc => hw c ?_)
      exact List.mem_cons_of_mem _ hc

theorem words_word_append {w rest : List Char} (hne : w ≠ []) (hw : ∀ c ∈ w, isBlank c = false)
    (hr : ∀ c ∈ rest.head?, isBlank c = true) :
    words (String.ofList (w ++ rest)) = String.ofList w :: words (String.ofList rest) := by
  have hsplit : (w ++ rest).splitBy (fun a b => isBlank a == isBlank b) =
      w :: rest.splitBy (fun a b => isBlank a == isBlank b) := by
    rw [List.splitBy_append, List.splitBy_of_isChain hne (isChain_sameBlank hw)]
    · rfl
    intro x hx y hy
    simp [hw x (List.mem_of_mem_getLast? hx), hr y hy]
  have hword : (!w.all isBlank) = true := by
    obtain ⟨c, hc⟩ := List.exists_mem_of_ne_nil w hne
    simp only [Bool.not_eq_true', List.all_eq_false]
    exact ⟨c, hc, by simp [hw c hc]⟩
  simp [words, hsplit, hword]

theorem words_blanks_append {b rest : List Char} (hb : ∀ c ∈ b, isBlank c = true)
    (hr : ∀ c ∈ rest.head?, isBlank c = false) :
    words (String.ofList (b ++ rest)) = words (String.ofList rest) := by
  cases b with
  | nil => rfl
  | cons c cs =>
    have hsplit : ((c :: cs) ++ rest).splitBy (fun a b => isBlank a == isBlank b) =
        (c :: cs) :: rest.splitBy (fun a b => isBlank a == isBlank b) := by
      rw [List.splitBy_append, List.splitBy_of_isChain (List.cons_ne_nil c cs)
        (isChain_sameBlank hb)]
      · rfl
      intro x hx y hy
      simp [hb x (List.mem_of_mem_getLast? hx), hr y hy]
    simp only [words, String.toList_ofList]
    rw [hsplit]
    simp [List.all_eq_true.2 hb]

theorem words_blank_cons {b : Char} {rest : List Char} (hb : isBlank b = true)
    (hr : ∀ c ∈ rest.head?, isBlank c = false) :
    words (String.ofList (b :: rest)) = words (String.ofList rest) :=
  words_blanks_append (b := [b]) (by simpa using hb) hr

theorem words_blanks {b : List Char} (hb : ∀ c ∈ b, isBlank c = true) :
    words (String.ofList b) = [] := by
  rw [← List.append_nil b, words_blanks_append hb (by simp)]
  rfl

/-- A word and the words after it, each after a blank, and blanks at the end. -/
theorem words_fields : ∀ (w : List Char) (ops : List (List Char)) (tail : List Char),
    w ≠ [] → (∀ c ∈ w, isBlank c = false) → (∀ o ∈ ops, o ≠ [] ∧ ∀ c ∈ o, isBlank c = false) →
    (∀ c ∈ tail, isBlank c = true) →
    words (String.ofList (w ++ (ops.map (' ' :: ·)).flatten ++ tail)) = (w :: ops).map String.ofList
  | w, [], tail, hne, hw, _, ht => by
    rw [List.map_nil, List.flatten_nil, List.append_nil,
      words_word_append hne hw fun c hc => ht c (List.mem_of_mem_head? hc), words_blanks ht]
    rfl
  | w, o :: ops, tail, hne, hw, hops, ht => by
    obtain ⟨hone, ho⟩ := hops o (List.mem_cons_self ..)
    have hrest := words_fields o ops tail hone ho (fun o' h => hops o' (List.mem_cons_of_mem _ h)) ht
    have hsp : isBlank ' ' = true := by decide
    rw [List.map_cons, List.flatten_cons, List.append_assoc, List.append_assoc,
      words_word_append hne hw (by simp [hsp]), List.cons_append,
      words_blank_cons hsp ?_, ← List.append_assoc, hrest]
    · rfl
    obtain ⟨c, cs, rfl⟩ := List.exists_cons_of_ne_nil hone
    simpa using ho c (List.mem_cons_self ..)

/-! ## Listing lines -/

/-- Characters a field of a listing line is made of: not blank, and not the comment mark. -/
def Plain (cs : List Char) : Prop := cs ≠ [] ∧ ∀ c ∈ cs, isBlank c = false ∧ c ≠ ';'

theorem plain_iff_all {cs : List Char} :
    Plain cs ↔ cs ≠ [] ∧ cs.all (fun c => !isBlank c && c != ';') = true := by
  simp [Plain]

instance : DecidablePred Plain := fun _ => decidable_of_iff _ plain_iff_all.symm

theorem plain_char_of_isDigit {c : Char} (h : c.isDigit = true) : isBlank c = false ∧ c ≠ ';' := by
  have hc : 48 ≤ c.toNat ∧ c.toNat ≤ 57 := by
    simp only [Char.isDigit, Bool.and_eq_true, decide_eq_true_eq] at h
    exact ⟨h.1, h.2⟩
  refine ⟨?_, fun he => by subst he; simp at hc⟩
  simp only [isBlank]
  simp only [Bool.or_eq_false_iff, Bool.and_eq_false_iff, decide_eq_false_iff_not,
    beq_eq_false_iff_ne, ne_eq]
  omega

theorem Op.plain_mnemonic (op : Op) : Plain op.mnemonic.toList := by
  cases op <;> decide

theorem plain_toDigits (n : Nat) : Plain (Nat.toDigits 10 n) :=
  ⟨Nat.toDigits_ne_nil, fun _ hc => plain_char_of_isDigit (toDigits_isDigit n _ hc)⟩

theorem plain_toString (v : Int) : Plain (toString v).toList := by
  cases v with
  | ofNat n =>
    show Plain (Nat.repr n).toList
    rw [Nat.toList_repr]
    exact plain_toDigits n
  | negSucc n =>
    have hd := plain_toDigits (n + 1)
    show Plain ("-" ++ Nat.repr (n + 1)).toList
    rw [String.toList_append, Nat.toList_repr]
    refine ⟨by simp, fun c hc => ?_⟩
    rcases List.mem_append.1 hc with hc | hc
    · have hm : "-".toList = ['-'] := rfl
      rw [hm, List.mem_singleton] at hc
      subst hc
      decide
    · exact hd.2 c hc

theorem plain_pcText (pc : Nat) : Plain (pcText pc).toList := by
  refine ⟨by simp [toList_pcText, Nat.toDigits_ne_nil], fun c hc => ?_⟩
  rw [toList_pcText] at hc
  rcases List.mem_append.1 hc with hc | hc
  · rw [(List.mem_replicate.1 hc).2]
    decide
  · exact (plain_toDigits pc).2 c hc

theorem takeWhile_plain {w rest : List Char} (hw : ∀ c ∈ w, c ≠ ';') :
    (w ++ rest).takeWhile (· != ';') = w ++ rest.takeWhile (· != ';') :=
  List.takeWhile_append_of_pos fun c hc => by simpa using hw c hc

theorem opName_of_op? {i : Instruction} {op : Op} (h : i.op? = some op) :
    opName i.opcode = op.mnemonic := by
  simp only [Instruction.op?] at h
  simp [opName, h]

variable {c : Chunk} {h : Heap} {globals : Array String} {pc : Nat} {i : Instruction} {op : Op}

theorem cut_instructionWith (hi : c.code[pc]? = some i) (hop : i.op? = some op) :
    ∃ tail, (∀ ch ∈ tail, isBlank ch = true) ∧
      (c.instructionWith h globals pc).toList.takeWhile (· != ';') =
        op.mnemonic.toList ++ ((i.operands.map fun v => (toString v).toList).map (' ' :: ·)).flatten ++
          tail := by
  have htext : (opName i.opcode ++ String.join (i.operands.map fun v => " " ++ toString v)).toList =
      op.mnemonic.toList ++ ((i.operands.map fun v => (toString v).toList).map (' ' :: ·)).flatten := by
    have hsp : " ".toList = [' '] := rfl
    simp only [opName_of_op? hop, String.toList_append, String.toList_join, List.flatMap,
      List.map_map, Function.comp_def, hsp, List.singleton_append]
  have hplain : ∀ ch ∈ op.mnemonic.toList ++
      ((i.operands.map fun v => (toString v).toList).map (' ' :: ·)).flatten, ch ≠ ';' := by
    intro ch hch
    simp only [List.mem_append, List.mem_flatten, List.mem_map] at hch
    rcases hch with hch | ⟨_, ⟨_, ⟨v, -, rfl⟩, rfl⟩, hch⟩
    · exact ((Op.plain_mnemonic op).2 ch hch).2
    · rcases List.mem_cons.1 hch with rfl | hch
      · decide
      · exact ((plain_toString v).2 ch hch).2
  unfold Chunk.instructionWith
  simp only [Int.natCast_nonneg, if_true, Int.toNat_natCast, hi]
  generalize opName i.opcode ++ String.join (i.operands.map fun v => " " ++ toString v) = s at htext
  -- without a comment the line is the text; with one, the text is padded and a blank goes first
  split
  · refine ⟨[], by simp, ?_⟩
    rw [htext, ← List.append_nil (_ ++ _), takeWhile_plain hplain]
    simp
  · have hpad : ∀ ch ∈ List.replicate (22 - s.length) ' ' ++ [' '], isBlank ch = true ∧ ch ≠ ';' := by
      intro ch hch
      rcases List.mem_append.1 hch with hch | hch
      · rw [(List.mem_replicate.1 hch).2]
        decide
      · rw [List.mem_singleton.1 hch]
        decide
    refine ⟨List.replicate (22 - s.length) ' ' ++ [' '], fun ch hch => (hpad ch hch).1, ?_⟩
    have hmark : " ; ".toList = [' ', ';', ' '] := rfl
    simp only [padRight, String.toList_append, String.toList_ofList, htext, hmark]
    rw [show ∀ T R N : List Char, T ++ R ++ [' ', ';', ' '] ++ N = T ++ (R ++ [' ']) ++ ';' :: ' ' :: N
        by intros; simp,
      takeWhile_plain fun ch hch => (List.mem_append.1 hch).elim (hplain ch) fun h' => (hpad ch h').2]
    simp

theorem words_instructionWith (hi : c.code[pc]? = some i) (hop : i.op? = some op) :
    words (String.ofList ((c.instructionWith h globals pc).toList.takeWhile (· != ';'))) =
      op.mnemonic :: i.operands.map toString := by
  obtain ⟨tail, htail, hcut⟩ := @cut_instructionWith _ h globals _ _ _ hi hop
  rw [hcut, words_fields _ _ _ (Op.plain_mnemonic op).1 (fun ch hch => ((Op.plain_mnemonic op).2 ch hch).1)
    ?_ htail]
  · simp
  · simp only [List.mem_map]
    rintro _ ⟨v, -, rfl⟩
    exact ⟨(plain_toString v).1, fun ch hch => ((plain_toString v).2 ch hch).1⟩

theorem mapM_operands {f : String × Nat → Except String Int}
    (hf : ∀ (v : Int) (i : Nat), Fits64 v → f (toString v, i) = .ok v) :
    ∀ (ops : List Int) (k : Nat), (∀ v ∈ ops, Fits64 v) →
      ((ops.map toString).zipIdx k).mapM f = .ok ops
  | [], _, _ => rfl
  | v :: ops, k, h => by
    rw [List.map_cons, List.zipIdx_cons, List.mapM_cons, hf v k (h v (List.mem_cons_self ..)),
      mapM_operands hf ops (k + 1) fun v' hv' => h v' (List.mem_cons_of_mem _ hv')]
    rfl

theorem parseInstruction_of_words {line : String} {ops : List Int} (hlen : ops.length = op.arity)
    (hfit : ∀ v ∈ ops, Fits64 v)
    (hw : words (String.ofList (line.toList.takeWhile (· != ';'))) = op.mnemonic :: ops.map toString ∨
      ∃ p, (readWordInt p).toBool = true ∧
        words (String.ofList (line.toList.takeWhile (· != ';'))) = p :: op.mnemonic :: ops.map toString) :
    parseInstruction line = .ok (Instruction.encode op.code ops) := by
  have harity : op.info.2.2 = op.arity := rfl
  unfold parseInstruction
  -- a leading numeral is an instruction index and is dropped; a mnemonic is kept
  rcases hw with hw | ⟨p, hp, hw⟩
  · simp only [hw, Op.readWordInt_mnemonic, Bool.false_eq_true, if_false,
      Op.ofMnemonic?_mnemonic, List.length_map, harity, hlen, bne_self_eq_false]
    rw [mapM_operands (fun v i hv => ?_) ops 0 hfit]
    · rfl
    · simp only [readWordInt_toString hv]
  · simp only [hw, hp, if_true, Op.ofMnemonic?_mnemonic, List.length_map, harity, hlen,
      bne_self_eq_false, Bool.false_eq_true, if_false]
    rw [mapM_operands (fun v i hv => ?_) ops 0 hfit]
    · rfl
    · simp only [readWordInt_toString hv]

/-- The text of an instruction, whatever its comment shows, reads back as the instruction, when
the field a listing leaves out is zero. -/
theorem parseInstruction_instructionWith (hi : c.code[pc]? = some i) (hop : i.op? = some op)
    (hc : op.layout = .abc → op.arity = 2 → i.c = 0) :
    parseInstruction (c.instructionWith h globals pc) = .ok i := by
  rw [parseInstruction_of_words (Instruction.length_operands hop) i.fits64_operands
    (.inl (words_instructionWith hi hop)), ← Instruction.opcode_eq_of_op? hop,
    Instruction.encode_operands hop hc]

/-- The line of a listing that holds an instruction reads back as the instruction. -/
theorem parseInstruction_line (hi : c.code[pc]? = some i) (hop : i.op? = some op)
    (hc : op.layout = .abc → op.arity = 2 → i.c = 0) (hpc : pc < Nat.pow 2 63) :
    ∃ line, (c.lines h)[pc]? = some line ∧ parseInstruction line = .ok i := by
  have hlt : pc < c.code.size := by
    by_contra hge
    rw [Array.getElem?_eq_none (Nat.le_of_not_lt hge)] at hi
    cases hi
  have hline : (c.lines h)[pc]? = some (pcText pc ++ "  " ++ c.instructionText h pc) := by
    simp only [Chunk.lines, List.getElem?_map, List.getElem?_range hlt, Option.map_some]
  refine ⟨_, hline, ?_⟩
  have hpcplain := plain_pcText pc
  have hmn := Op.plain_mnemonic op
  -- the index column, two blanks, then the instruction's text
  have hcut : (pcText pc ++ "  " ++ c.instructionText h pc).toList.takeWhile (· != ';') =
      (pcText pc).toList ++ ([' ', ' '] ++
        (c.instructionWith h c.globals pc).toList.takeWhile (· != ';')) := by
    have hsp : "  ".toList = [' ', ' '] := rfl
    rw [String.toList_append, String.toList_append, hsp, List.append_assoc,
      takeWhile_plain fun ch hch => (hpcplain.2 ch hch).2]
    rfl
  have hstart : ∀ ch ∈ ((c.instructionWith h c.globals pc).toList.takeWhile (· != ';')).head?,
      isBlank ch = false := by
    obtain ⟨tail, -, hcut'⟩ := @cut_instructionWith _ h c.globals _ _ _ hi hop
    obtain ⟨m, ms, hm⟩ := List.exists_cons_of_ne_nil hmn.1
    rw [hcut', hm]
    intro ch hch
    simp only [List.cons_append, List.head?_cons, Option.mem_def, Option.some.injEq] at hch
    subst hch
    exact (hmn.2 m (by simp [hm])).1
  have hwords : words (String.ofList ((pcText pc ++ "  " ++ c.instructionText h pc).toList.takeWhile
      (· != ';'))) = pcText pc :: op.mnemonic :: i.operands.map toString := by
    rw [hcut, words_word_append hpcplain.1 (fun ch hch => (hpcplain.2 ch hch).1) (by simp; decide),
      words_blanks_append (by simp [isBlank]) hstart, String.ofList_toList, words_instructionWith hi hop]
  have hindex : (readWordInt (pcText pc)).toBool = true := by
    rw [readWordInt_pcText hpc]
    rfl
  rw [parseInstruction_of_words (Instruction.length_operands hop) i.fits64_operands
    (.inr ⟨pcText pc, hindex, hwords⟩), ← Instruction.opcode_eq_of_op? hop,
    Instruction.encode_operands hop hc]

/-! ## Retargeting jumps -/

theorem Instruction.opcode_withSBx (i : Instruction) (sbx : Int) :
    (i.withSBx sbx).opcode = i.opcode := by
  simp [Instruction.withSBx, asbx, Nat.mod_eq_of_lt (Instruction.opcode_lt i)]

theorem isJump_getD_iff {i : Instruction} :
    ((i.op?.map Op.isJump).getD false) = true ↔
      i.op? = some .jmp ∨ i.op? = some .forPrep ∨ i.op? = some .forLoop := by
  cases i.op? with
  | none => simp
  | some op => cases op <;> simp [Op.isJump]

namespace Chunk

/-- Retargeting the jump at `pc` succeeds exactly when the instruction there is `JMP`, `FORPREP`
or `FORLOOP` and `target` is a point of the code, or its end, within `maxSBx` of the next
instruction. -/
theorem patchJump_ok_iff {c : Chunk} {pc target : Int} :
    (∃ c', c.patchJump pc target = .ok c') ↔
      ∃ i, 0 ≤ pc ∧ c.code[pc.toNat]? = some i ∧
        (i.op? = some .jmp ∨ i.op? = some .forPrep ∨ i.op? = some .forLoop) ∧
        0 ≤ target ∧ target ≤ c.code.size ∧ -maxSBx ≤ target - pc - 1 ∧
        target - pc - 1 ≤ maxSBx := by
  constructor
  · rintro ⟨c', hp⟩
    obtain ⟨j, hj, rfl, hjump, h0, hle, lo, hi, -⟩ := patchJump_eq_retarget hp
    exact ⟨c.code[j], by omega, by simp [hj], isJump_getD_iff.1 hjump, h0, hle, by omega,
      by omega⟩
  · rintro ⟨i, h0, hi, hjump, ht0, hts, lo, hi'⟩
    obtain ⟨hlt, rfl⟩ := Array.getElem?_eq_some_iff.1 hi
    have hj := isJump_getD_iff.2 hjump
    unfold patchJump
    rw [dif_pos ⟨h0, hlt⟩]
    simp only [hj, Bool.not_true, Bool.false_eq_true, if_false]
    rw [if_neg (by simp only [Bool.or_eq_true, decide_eq_true_eq]; omega),
      if_neg (by simp only [Bool.or_eq_true, decide_eq_true_eq]; omega)]
    exact ⟨_, rfl⟩

/-- A successful retargeting gives the jump at `pc` the target asked for and keeps its opcode,
its `A` field, every other instruction and every other field of the chunk. -/
theorem patchJump_spec {c c' : Chunk} {pc target : Int} (hp : c.patchJump pc target = .ok c') :
    ∃ i i', c.code[pc.toNat]? = some i ∧ c'.code[pc.toNat]? = some i' ∧
      i'.opcode = i.opcode ∧ i'.a = i.a ∧ c'.jumpTarget pc.toNat = target ∧
      c'.code.size = c.code.size ∧ (∀ q, q ≠ pc.toNat → c'.code[q]? = c.code[q]?) ∧
      { c' with code := c.code } = c := by
  obtain ⟨j, hj, rfl, -, -, -, lo, hi, rfl⟩ := patchJump_eq_retarget hp
  refine ⟨c.code[j], c.code[j].withSBx (target - (j + 1)), by simp [hj], by simp [retarget, hj],
    Instruction.opcode_withSBx _ _, Instruction.a_withSBx _ _, ?_, by simp, fun q hq => ?_,
    by cases c; rfl⟩
  · rw [Int.toNat_natCast, jumpTarget_retarget_self lo hi]
    omega
  · simp [retarget, Array.getElem?_set_ne hj (Ne.symm hq)]

end Chunk

/-! ## Packing, listing and retargeting together -/

/-- Packing, listing and retargeting are inverse to one another: operands that fit their fields
are read back from the word they build; a word with a defined opcode whose unshown field is zero
is rebuilt from its operands and read back from its text, whatever the comment shows, and from
its line of a listing; and retargeting succeeds exactly when the instruction is a jump and the
target is in reach, and then points that jump, and nothing else, at the target. -/
theorem instruction_encoding_listing_and_patching_invert :
    (∀ (op : Op) (ops : List Int), op.layout.Fits ops →
      (Instruction.encode op.code ops).op? = some op ∧
        (Instruction.encode op.code ops).operands = ops.take op.arity) ∧
    (∀ (c : Chunk) (pc : Nat) (i : Instruction) (op : Op), c.code[pc]? = some i →
      i.op? = some op → (op.layout = .abc → op.arity = 2 → i.c = 0) →
      Instruction.encode i.opcode i.operands = i ∧
      (∀ (h : Heap) (globals : Array String),
        parseInstruction (c.instructionWith h globals pc) = .ok i) ∧
      (pc < Nat.pow 2 63 → ∀ h : Heap,
        ∃ line, (c.lines h)[pc]? = some line ∧ parseInstruction line = .ok i)) ∧
    (∀ (c : Chunk) (pc target : Int),
      ((∃ c', c.patchJump pc target = .ok c') ↔
        ∃ i, 0 ≤ pc ∧ c.code[pc.toNat]? = some i ∧
          (i.op? = some .jmp ∨ i.op? = some .forPrep ∨ i.op? = some .forLoop) ∧
          0 ≤ target ∧ target ≤ c.code.size ∧ -maxSBx ≤ target - pc - 1 ∧
          target - pc - 1 ≤ maxSBx) ∧
      ∀ c', c.patchJump pc target = .ok c' →
        ∃ i i', c.code[pc.toNat]? = some i ∧ c'.code[pc.toNat]? = some i' ∧
          i'.opcode = i.opcode ∧ i'.a = i.a ∧ c'.jumpTarget pc.toNat = target ∧
          c'.code.size = c.code.size ∧ (∀ q, q ≠ pc.toNat → c'.code[q]? = c.code[q]?) ∧
          { c' with code := c.code } = c) := by
  refine ⟨fun op ops hfit => Instruction.encode_fits hfit, ?_, ?_⟩
  · intro c pc i op hi hop hc
    exact ⟨Instruction.encode_operands hop hc,
      fun h globals => parseInstruction_instructionWith hi hop hc,
      fun hpc h => parseInstruction_line hi hop hc hpc⟩
  · intro c pc target
    exact ⟨Chunk.patchJump_ok_iff, fun c' hp => Chunk.patchJump_spec hp⟩

/-- A jump three instructions ahead, packed from its operands, is listed as the line
`0  JMP 0 3` of a chunk holding it, which reads back as the jump. -/
theorem jump_ahead_line_reads_back :
    (Instruction.encode Op.jmp.code [0, 3]).op? = some .jmp ∧
      ∃ line, (({ name := "", code := #[Instruction.encode Op.jmp.code [0, 3]] } : Chunk).lines
        default)[0]? = some line ∧
        parseInstruction line = .ok (Instruction.encode Op.jmp.code [0, 3]) :=
  have hfit : Op.jmp.layout.Fits [0, 3] := by decide
  ⟨(instruction_encoding_listing_and_patching_invert.1 .jmp [0, 3] hfit).1,
    (instruction_encoding_listing_and_patching_invert.2.1 _ 0 _ .jmp rfl
      (instruction_encoding_listing_and_patching_invert.1 .jmp [0, 3] hfit).1
      (by decide)).2.2 (by decide) default⟩

end ScriptMachine.Bytecode
