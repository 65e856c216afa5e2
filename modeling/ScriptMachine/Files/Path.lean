/-!
# Slash-separated paths

Paths are texts with `/` between their elements; a path starting with `/` is absolute. These
are the lexical operations of the command line and the configuration loader: `clean`, `join`,
`dir` and `absolute`.
-/

namespace ScriptMachine.Files

/-- Folds the elements of a path, with whether it is rooted. -/
def foldElements (rooted : Bool) : List String → List String → List String
  | acc, [] => acc
  | acc, e :: rest =>
    if e.isEmpty || e == "." then foldElements rooted acc rest
    else if e == ".." then
      match acc with
      | prev :: more => if prev == ".." then foldElements rooted (e :: acc) rest
                        else foldElements rooted more rest
      | [] => if rooted then foldElements rooted [] rest else foldElements rooted [e] rest
    else foldElements rooted (e :: acc) rest

def clean (path : String) : String :=
  if path.isEmpty then "."
  else
    let rooted := path.startsWith "/"
    let body := "/".intercalate (foldElements rooted [] (path.splitOn "/")).reverse
    if rooted then "/" ++ body else if body.isEmpty then "." else body

/-- The non-empty elements joined with `/`, cleaned; empty when every element is. -/
def join (elems : List String) : String :=
  match elems.filter (!·.isEmpty) with
  | [] => ""
  | es => clean ("/".intercalate es)

def isAbsolute (path : String) : Bool := path.startsWith "/"

/-- Everything before the last `/`, cleaned: `.` for a bare name, `/` for a name at the
root. -/
def dir (path : String) : String :=
  let before := (path.toList.reverse.dropWhile (· != '/')).reverse
  clean (String.ofList before)

def base (path : String) : String :=
  (path.splitOn "/").getLast?.getD path

/-- A path made absolute against a working directory, cleaned. -/
def absolute (cwd path : String) : String :=
  if isAbsolute path then clean path else join [cwd, path]

def ancestors (path : String) : List String :=
  let elems := (path.splitOn "/").filter (!·.isEmpty)
  (List.range elems.length).map fun n => "/" ++ "/".intercalate (elems.take n)

end ScriptMachine.Files
