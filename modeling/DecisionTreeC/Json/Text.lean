import DecisionTreeC.Json.Reader

/-!
Strings of JSON text: reading them with their escapes, passing over them, and writing them.
-/
namespace DecisionTreeC.Json

def hexDigit? (c : Char) : Option Nat :=
  if c.isDigit then some (c.toNat - '0'.toNat)
  else if 'a' ≤ c ∧ c ≤ 'f' then some (c.toNat - 'a'.toNat + 10)
  else if 'A' ≤ c ∧ c ≤ 'F' then some (c.toNat - 'A'.toNat + 10)
  else none

/-- Four hexadecimal digits. A text of fewer than four bytes is unfinished. -/
def hexFour : List Char → Except Fault (Nat × List Char)
  | a :: b :: c :: d :: rest =>
    match hexDigit? a, hexDigit? b, hexDigit? c, hexDigit? d with
    | some a, some b, some c, some d => .ok (((a * 16 + b) * 16 + c) * 16 + d, rest)
    | _, _, _, _ => .error .malformed
  | short =>
    if short.foldr (fun c bytes => c.utf8Size + bytes) 0 < 4 then .error .unfinished
    else .error .malformed

def shortEscape? : Char → Option Char
  | '"' => some '"'
  | '\\' => some '\\'
  | '/' => some '/'
  | 'b' => some '\x08'
  | 'f' => some '\x0c'
  | 'n' => some '\n'
  | 'r' => some '\r'
  | 't' => some '\t'
  | _ => none

def lowHalf (high : Nat) : List Char → Except Fault (Char × List Char)
  | [] => .error .unfinished
  | ['\\'] => .error .unfinished
  | '\\' :: 'u' :: rest => do
    let (low, rest) ← hexFour rest
    if 0xdc00 ≤ low ∧ low ≤ 0xdfff then
      pure (Char.ofNat (0x10000 + (high - 0xd800) * 0x400 + (low - 0xdc00)), rest)
    else throw .malformed
  | _ => .error .malformed

/-- The character of an escape, behind its backslash. A code unit of a pair needs its other half. -/
def escaped : List Char → Except Fault (Char × List Char)
  | [] => .error .unfinished
  | 'u' :: rest => do
    let (unit, rest) ← hexFour rest
    if 0xdc00 ≤ unit ∧ unit ≤ 0xdfff then throw .malformed
    else if 0xd800 ≤ unit ∧ unit ≤ 0xdbff then lowHalf unit rest
    else pure (Char.ofNat unit, rest)
  | c :: rest =>
    match shortEscape? c with
    | some meant => .ok (meant, rest)
    | none => .error .malformed

/-- Passes over an escape; halves of pairs may stand alone here. -/
def escapeSkipped : List Char → Except Fault (List Char)
  | [] => .error .unfinished
  | 'u' :: rest => do
    let (_, rest) ← hexFour rest
    pure rest
  | c :: rest => if (shortEscape? c).isSome then .ok rest else .error .malformed

theorem hexFour_length {text rest : List Char} {unit : Nat}
    (read : hexFour text = .ok (unit, rest)) : rest.length < text.length := by
  unfold hexFour at read
  split at read
  · split at read
    · injection read with same
      injection same with _ same
      subst same
      simp only [List.length_cons]
      omega
    · cases read
  · split at read <;> cases read

theorem lowHalf_length {high : Nat} {text rest : List Char} {c : Char}
    (read : lowHalf high text = .ok (c, rest)) : rest.length < text.length := by
  unfold lowHalf at read
  split at read
  · cases read
  · cases read
  · simp only [bind, Except.bind] at read
    split at read
    · cases read
    · rename_i found
      have := hexFour_length found
      split at read
      · injection read with same
        injection same with _ same
        subst same
        simp only [List.length_cons]
        omega
      · cases read
  · cases read

theorem escaped_length {text rest : List Char} {c : Char}
    (read : escaped text = .ok (c, rest)) : rest.length < text.length := by
  unfold escaped at read
  split at read
  · cases read
  · simp only [bind, Except.bind] at read
    split at read
    · cases read
    · rename_i found
      have := hexFour_length found
      split at read
      · cases read
      · split at read
        · have := lowHalf_length read
          simp only [List.length_cons]
          omega
        · injection read with same
          injection same with _ same
          subst same
          simp only [List.length_cons]
          omega
  · split at read
    · injection read with same
      injection same with _ same
      subst same
      simp
    · cases read

theorem escapeSkipped_length {text rest : List Char}
    (read : escapeSkipped text = .ok rest) : rest.length < text.length := by
  unfold escapeSkipped at read
  split at read
  · cases read
  · simp only [bind, Except.bind] at read
    split at read
    · cases read
    · rename_i found
      have := hexFour_length found
      injection read with same
      subst same
      simp only [List.length_cons]
      omega
  · split at read
    · injection read with same
      subst same
      simp
    · cases read

def textBody (text : List Char) : Except Fault (List Char × List Char) :=
  match text with
  | [] => .error .unfinished
  | '"' :: rest => .ok ([], rest)
  | '\\' :: rest =>
    match read : escaped rest with
    | .error fault => .error fault
    | .ok (c, after) =>
      have : after.length < rest.length := escaped_length read
      (textBody after).map fun (more, rest) => (c :: more, rest)
  | c :: rest =>
    if c.toNat < 0x20 then .error .malformed
    else (textBody rest).map fun (more, rest) => (c :: more, rest)
termination_by text.length

def bodySkipped (text : List Char) : Except Fault (List Char) :=
  match text with
  | [] => .error .unfinished
  | '"' :: rest => .ok rest
  | '\\' :: rest =>
    match read : escapeSkipped rest with
    | .error fault => .error fault
    | .ok after =>
      have : after.length < rest.length := escapeSkipped_length read
      bodySkipped after
  | c :: rest => if c.toNat < 0x20 then .error .malformed else bodySkipped rest
termination_by text.length

def text : Reader String := do
  match textBody (← get) with
  | .error fault => throw fault
  | .ok (chars, rest) =>
    set rest
    pure (String.ofList chars)

def textSkipped : Reader Unit := do
  match bodySkipped (← get) with
  | .error fault => throw fault
  | .ok rest => set rest

def escapedChar (c : Char) : List Char :=
  match c with
  | '"' => ['\\', '"']
  | '\\' => ['\\', '\\']
  | '\x08' => ['\\', 'b']
  | '\t' => ['\\', 't']
  | '\n' => ['\\', 'n']
  | '\x0c' => ['\\', 'f']
  | '\r' => ['\\', 'r']
  | c =>
    if c.toNat < 0x20 then
      ['\\', 'u', '0', '0', Nat.digitChar (c.toNat / 16), Nat.digitChar (c.toNat % 16)]
    else [c]

def writeText (text : String) : String :=
  String.ofList ('"' :: text.toList.flatMap escapedChar ++ ['"'])

end DecisionTreeC.Json
