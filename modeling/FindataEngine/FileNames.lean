import FindataEngine.Types
import Mathlib.Data.List.Basic
import Mathlib.Data.Nat.Digits

/-!
# Segment file names

`write_segment` names a file `symbol + "_" + std::to_string(segment_id) + ".seg"` in the data
directory, joins it to the directory with `std::filesystem::path::operator/`, and opens the
result's `c_str()`. Which file that opens is the kernel's business: the path ends at its first
NUL, and its components are walked from the root or the working directory, `.` and empty ones
naming the directory they stand in and `..` its parent (`fileOf`). The disk layer's files are
kept by `fileOf` of the path that opened them, so two paths that name one file reach one file.

A symbol with a `/` or a NUL in it reaches files outside its own name: `./FB` writes
`data/./FB_0.seg`, which is `data/FB_0.seg`. For a `PlainSymbol`, with neither, the name is one
entry of the data directory; `std::to_string` writes only decimal digits, so the last underscore
of a name is the one before the id, and segments of plain symbols are distinct files unless they
are the same segment of the same symbol (`segmentPath_sameFile`).
-/

set_option autoImplicit false

namespace FindataEngine

open List

/-- The NUL character, where `c_str()` ends a string for the kernel. -/
def nul : Char := '\x00'

/-- `(data_dir / name).string()`. `operator/` replaces the path by an absolute `name`, and
otherwise puts a separator between the two unless `dir` is empty or already ends in one. -/
def joinPath (dir name : String) : String :=
  if name.data.head? = some '/' then name
  else if dir.data = [] ∨ dir.data.getLast? = some '/' then dir ++ name
  else dir ++ "/" ++ name

/-- The name `write_segment` gives the file of a segment. -/
def segmentFileName (symbol : String) (segmentId : Nat) : String :=
  symbol ++ "_" ++ toString segmentId ++ ".seg"

/-- The path of a segment's file in the data directory `dir`. -/
def segmentPath (dir symbol : String) (segmentId : Nat) : String :=
  joinPath dir (segmentFileName symbol segmentId)

/-! ## The file a path names -/

/-- Prepending a character to the first component. -/
def consComponent (c : Char) : List (List Char) → List (List Char)
  | [] => [[c]]
  | part :: parts => (c :: part) :: parts

/-- The components of a path: the texts between its slashes, empty ones included. -/
def splitSlash : List Char → List (List Char)
  | [] => [[]]
  | c :: cs => if c = '/' then [] :: splitSlash cs else consComponent c (splitSlash cs)

/-- One component walked from the directory stack, innermost first: an empty component and `.`
name the directory they stand in, `..` its parent. The root is its own parent, and a relative
path keeps a `..` it cannot take back. -/
def resolveStep (absolute : Bool) (stack : List (List Char)) (part : List Char) :
    List (List Char) :=
  if part = [] ∨ part = ['.'] then stack
  else if part = ['.', '.'] then
    match stack with
    | [] => if absolute then [] else [part]
    | top :: rest => if top = ['.', '.'] then part :: top :: rest else rest
  else part :: stack

/-- Components joined by slashes. -/
def joinComponents : List (List Char) → List Char
  | [] => []
  | [part] => part
  | part :: parts => part ++ '/' :: joinComponents parts

/-- The walk of a path from the root, for a path that starts with `/`, or else from the working
directory: the components left, joined by slashes. -/
def resolvePath (chars : List Char) : List Char :=
  (if chars.head? = some '/' then ['/'] else []) ++
    joinComponents ((splitSlash chars).foldl (resolveStep (decide (chars.head? = some '/'))) []).reverse

/-- The file the kernel opens for a path string, as the path with no NUL, no `.`, no empty
component and no `..` it can take back: `c_str()` ends the path at its first NUL. The walk is
lexical: the data directory is one that `create_directories` made, and symbolic links are not
taken into account. -/
def fileOf (path : String) : String := ⟨resolvePath (path.data.takeWhile (· ≠ nul))⟩

/-- A name the kernel takes as one entry of a directory: no `/` and no NUL, and neither empty nor
`.` nor `..`. The directory iterator lists only such names. -/
def IsFileName (name : String) : Prop :=
  '/' ∉ name.data ∧ nul ∉ name.data ∧ name.data ≠ [] ∧ name.data ≠ ['.'] ∧ name.data ≠ ['.', '.']

instance : DecidablePred IsFileName := fun _ => inferInstanceAs (Decidable (_ ∧ _))

/-- A symbol whose segment files are entries of the data directory: with no `/`, `operator/`
neither descends into a subdirectory nor replaces the directory, and with no NUL, `c_str()` does
not cut the name short (`isFileName_segmentFileName`). -/
def PlainSymbol (symbol : String) : Prop := '/' ∉ symbol.data ∧ nul ∉ symbol.data

instance : DecidablePred PlainSymbol := fun _ => inferInstanceAs (Decidable (_ ∧ _))

/-! ## Decimal digits -/

/-- The value of a decimal digit character. -/
def digitValue (c : Char) : Nat := c.toNat - 48

/-- Reading a string of decimal digits back. -/
def ofDigitChars (l : List Char) : Nat := l.foldl (fun acc c => 10 * acc + digitValue c) 0

theorem digitValue_digitChar : ∀ d < 10, digitValue (Nat.digitChar d) = d := by decide

theorem toDigitsCore_append (f n : Nat) (ds : List Char) :
    Nat.toDigitsCore 10 f n ds = Nat.toDigitsCore 10 f n [] ++ ds := by
  induction f generalizing n ds with
  | zero => rfl
  | succ f ih =>
    simp only [Nat.toDigitsCore]
    split
    · rfl
    · rw [ih _ (_ :: ds), ih _ [_], append_assoc, singleton_append]

theorem ofDigitChars_append_singleton (l : List Char) (c : Char) :
    ofDigitChars (l ++ [c]) = 10 * ofDigitChars l + digitValue c := by
  simp [ofDigitChars, foldl_append]

theorem ofDigitChars_toDigitsCore (f n : Nat) (h : n < f) :
    ofDigitChars (Nat.toDigitsCore 10 f n []) = n := by
  induction f generalizing n with
  | zero => omega
  | succ f ih =>
    simp only [Nat.toDigitsCore]
    split
    · rename_i h0
      simp only [ofDigitChars, foldl_cons, foldl_nil]
      rw [digitValue_digitChar _ (Nat.mod_lt _ (by decide))]
      omega
    · rename_i h0
      rw [toDigitsCore_append, ofDigitChars_append_singleton, ih _ (by omega),
        digitValue_digitChar _ (Nat.mod_lt _ (by decide))]
      omega

theorem ofDigitChars_toString (n : Nat) : ofDigitChars (toString n).data = n :=
  ofDigitChars_toDigitsCore (n + 1) n (Nat.lt_succ_self n)

theorem toString_nat_injective {m n : Nat} (h : toString m = toString n) : m = n := by
  rw [← ofDigitChars_toString m, ← ofDigitChars_toString n, h]

theorem mem_toDigitsCore (f n : Nat) {c : Char} (hc : c ∈ Nat.toDigitsCore 10 f n []) :
    ∃ d < 10, Nat.digitChar d = c := by
  induction f generalizing n with
  | zero => simp [Nat.toDigitsCore] at hc
  | succ f ih =>
    simp only [Nat.toDigitsCore] at hc
    split at hc
    · exact ⟨_, Nat.mod_lt _ (by decide), (mem_singleton.mp hc).symm⟩
    · rw [toDigitsCore_append] at hc
      rcases mem_append.mp hc with hc | hc
      · exact ih _ hc
      · exact ⟨_, Nat.mod_lt _ (by decide), (mem_singleton.mp hc).symm⟩

theorem not_mem_toString {c : Char} (hc : ∀ d < 10, Nat.digitChar d ≠ c) (n : Nat) :
    c ∉ (toString n).data := fun h => by
  obtain ⟨d, hd, rfl⟩ := mem_toDigitsCore _ _ h
  exact hc d hd rfl

theorem underscore_not_mem_toString (n : Nat) : '_' ∉ (toString n).data :=
  not_mem_toString (by decide) n

/-! ## No two segments share a file -/

/-- A list split at its last underscore: the parts are determined. -/
theorem eq_of_append_underscore : ∀ {a b c d : List Char}, '_' ∉ c → '_' ∉ d →
    a ++ '_' :: c = b ++ '_' :: d → a = b ∧ c = d
  | [], [], _, _, _, _, h => ⟨rfl, by simpa using h⟩
  | [], x :: b, _, _, hc, _, h => by
    simp only [nil_append, cons_append, cons.injEq] at h
    exact absurd (h.2 ▸ mem_append_right _ (mem_cons_self _ _)) hc
  | x :: a, [], _, _, _, hd, h => by
    simp only [nil_append, cons_append, cons.injEq] at h
    exact absurd (h.2 ▸ mem_append_right _ (mem_cons_self _ _)) hd
  | x :: a, y :: b, _, _, hc, hd, h => by
    simp only [cons_append, cons.injEq] at h
    obtain ⟨rfl, h⟩ := h
    obtain ⟨rfl, rfl⟩ := eq_of_append_underscore hc hd h
    exact ⟨rfl, rfl⟩

theorem segmentFileName_injective {s s' : String} {i i' : Nat}
    (h : segmentFileName s i = segmentFileName s' i') : s = s' ∧ i = i' := by
  have hd : (s.data ++ '_' :: (toString i).data) ++ ".seg".data =
      (s'.data ++ '_' :: (toString i').data) ++ ".seg".data := by
    simpa [segmentFileName] using congrArg String.data h
  have hd' := append_cancel_right hd
  obtain ⟨hs, hi⟩ := eq_of_append_underscore (underscore_not_mem_toString i)
    (underscore_not_mem_toString i') hd'
  exact ⟨String.ext hs, toString_nat_injective (String.ext hi)⟩

/-! ## Segments of plain symbols are distinct files -/

theorem isFileName_segmentFileName {symbol : String} (h : PlainSymbol symbol) (segmentId : Nat) :
    IsFileName (segmentFileName symbol segmentId) := by
  have hdata : (segmentFileName symbol segmentId).data =
      symbol.data ++ '_' :: ((toString segmentId).data ++ ['.', 's', 'e', 'g']) := by
    simp [segmentFileName]
  have hlen : 4 < (segmentFileName symbol segmentId).data.length := by
    rw [hdata]; simp only [length_append, length_cons, length_nil]; omega
  refine ⟨?_, ?_, ?_, ?_, ?_⟩
  · rw [hdata]
    simpa using ⟨h.1, not_mem_toString (by decide) segmentId⟩
  · rw [hdata]
    simpa [nul] using ⟨h.2, not_mem_toString (by decide) segmentId⟩
  all_goals exact fun heq => by rw [heq] at hlen; simp at hlen

theorem splitSlash_ne_nil : ∀ cs : List Char, splitSlash cs ≠ []
  | [] => by simp [splitSlash]
  | c :: cs => by
    unfold splitSlash
    split
    · simp
    · cases splitSlash cs <;> simp [consComponent]

theorem splitSlash_of_no_slash : ∀ {cs : List Char}, '/' ∉ cs → splitSlash cs = [cs]
  | [], _ => rfl
  | c :: cs, h => by
    rw [mem_cons, not_or] at h
    rw [splitSlash, if_neg (Ne.symm h.1), splitSlash_of_no_slash h.2]
    rfl

theorem splitSlash_append_slash : ∀ (cs rest : List Char),
    splitSlash (cs ++ '/' :: rest) = splitSlash cs ++ splitSlash rest
  | [], rest => by simp [splitSlash]
  | c :: cs, rest => by
    rw [cons_append, splitSlash, splitSlash, splitSlash_append_slash cs rest]
    split
    · rfl
    · obtain ⟨part, parts, hcs⟩ := exists_cons_of_ne_nil (splitSlash_ne_nil cs)
      rw [hcs]
      rfl

theorem resolveStep_of_isFileName {name : String} (h : IsFileName name) (absolute : Bool)
    (stack : List (List Char)) : resolveStep absolute stack name.data = name.data :: stack := by
  obtain ⟨-, -, hne, hdot, hdotdot⟩ := h
  unfold resolveStep
  rw [if_neg (not_or.mpr ⟨hne, hdot⟩), if_neg hdotdot]

theorem joinComponents_append_singleton (part : List Char) : ∀ parts : List (List Char),
    joinComponents (parts ++ [part]) =
      (if parts = [] then [] else joinComponents parts ++ ['/']) ++ part
  | [] => rfl
  | [p] => by simp [joinComponents]
  | p :: q :: parts => by
    have ih := joinComponents_append_singleton part (q :: parts)
    rw [if_neg (cons_ne_nil _ _)] at ih
    rw [if_neg (cons_ne_nil _ _)]
    show p ++ '/' :: joinComponents (q :: parts ++ [part]) =
      (p ++ '/' :: joinComponents (q :: parts)) ++ ['/'] ++ part
    rw [ih]
    simp

/-- Below a directory, an entry's path walks to the directory's components and then the name. -/
theorem resolvePath_append_name (chars : List Char) :
    ∃ front : List Char, ∀ name, IsFileName name →
      resolvePath (chars ++ '/' :: name.data) = front ++ name.data := by
  have habs : ∀ rest : List Char, (chars ++ '/' :: rest).head? = (chars ++ ['/']).head? := by
    intro rest; cases chars <;> rfl
  generalize hstack : (splitSlash chars).foldl
    (resolveStep (decide ((chars ++ ['/']).head? = some '/'))) [] = stack
  refine ⟨(if (chars ++ ['/']).head? = some '/' then ['/'] else []) ++
    (if stack.reverse = [] then [] else joinComponents stack.reverse ++ ['/']), fun name h => ?_⟩
  rw [resolvePath, habs, splitSlash_append_slash, splitSlash_of_no_slash h.1, foldl_append, hstack,
    foldl_cons, foldl_nil, resolveStep_of_isFileName h, reverse_cons,
    joinComponents_append_singleton, append_assoc]

/-- The directory part of `dir / name` for a relative `name`. -/
def dirPart (dir : String) : List Char :=
  if dir.data = [] ∨ dir.data.getLast? = some '/' then dir.data else dir.data ++ ['/']

theorem joinPath_data {dir name : String} (h : name.data.head? ≠ some '/') :
    (joinPath dir name).data = dirPart dir ++ name.data := by
  unfold joinPath dirPart
  rw [if_neg h]
  split <;> simp

theorem dirPart_eq (dir : String) : dirPart dir = [] ∨ ∃ chars, dirPart dir = chars ++ ['/'] := by
  unfold dirPart
  split
  · rename_i h
    rcases h with h | h
    · exact .inl h
    · exact .inr ⟨dir.data.dropLast, (dropLast_append_getLast? _ h).symm⟩
  · exact .inr ⟨dir.data, rfl⟩

theorem takeWhile_ne_nul {chars : List Char} (h : nul ∉ chars) :
    chars.takeWhile (· ≠ nul) = chars :=
  takeWhile_eq_self_iff.mpr fun _ hc => decide_eq_true fun heq => h (heq ▸ hc)

/-- In a directory whose path has no NUL, every entry's file is the directory's file with the
entry's name after it. -/
theorem fileOf_joinPath {dir : String} (hdir : nul ∉ dir.data) :
    ∃ front : List Char, ∀ name, IsFileName name →
      (fileOf (joinPath dir name)).data = front ++ name.data := by
  have hhead : ∀ name, IsFileName name → name.data.head? ≠ some '/' := fun name h hh =>
    h.1 (mem_of_mem_head? hh)
  have hpart : nul ∉ dirPart dir := by
    unfold dirPart
    split <;> simpa [nul] using hdir
  rcases dirPart_eq dir with hnil | ⟨chars, hchars⟩
  · refine ⟨[], fun name h => ?_⟩
    show resolvePath ((joinPath dir name).data.takeWhile (· ≠ nul)) = _
    rw [joinPath_data (hhead name h), hnil, nil_append, takeWhile_ne_nul h.2.1, resolvePath,
      splitSlash_of_no_slash h.1, if_neg (hhead name h), foldl_cons, foldl_nil,
      resolveStep_of_isFileName h]
    rfl
  · obtain ⟨front, hfront⟩ := resolvePath_append_name chars
    refine ⟨front, fun name h => ?_⟩
    have hnul : nul ∉ dirPart dir ++ name.data := by
      rw [mem_append, not_or]; exact ⟨hpart, h.2.1⟩
    show resolvePath ((joinPath dir name).data.takeWhile (· ≠ nul)) = _
    rw [joinPath_data (hhead name h), takeWhile_ne_nul hnul, hchars, append_assoc,
      singleton_append, hfront name h]

/-- Two entries of a directory whose path has no NUL are one file only if they have one name. -/
theorem fileOf_joinPath_inj {dir name name' : String} (hdir : nul ∉ dir.data) (h : IsFileName name)
    (h' : IsFileName name') (heq : fileOf (joinPath dir name) = fileOf (joinPath dir name')) :
    name = name' := by
  obtain ⟨front, hfront⟩ := fileOf_joinPath hdir
  have hd := congrArg String.data heq
  rw [hfront name h, hfront name' h'] at hd
  exact String.ext (append_cancel_left hd)

/-- Two segments of plain symbols in a directory whose path has no NUL are one file only if they
are the same segment of the same symbol. -/
theorem segmentPath_sameFile {dir s s' : String} {i i' : Nat} (hdir : nul ∉ dir.data)
    (hs : PlainSymbol s) (hs' : PlainSymbol s')
    (h : fileOf (segmentPath dir s i) = fileOf (segmentPath dir s' i')) : s = s' ∧ i = i' :=
  segmentFileName_injective (fileOf_joinPath_inj hdir (isFileName_segmentFileName hs i)
    (isFileName_segmentFileName hs' i') h)

/-- Without the restriction two symbols reach one file: `./FB` writes `data/./FB_0.seg`, which is
`data/FB_0.seg`. -/
example : segmentPath "data" "./FB" 0 ≠ segmentPath "data" "FB" 0 ∧
    fileOf (segmentPath "data" "./FB" 0) = fileOf (segmentPath "data" "FB" 0) := by
  decide

end FindataEngine
