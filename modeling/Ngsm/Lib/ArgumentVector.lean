/-
# Command lines

How a Windows process splits its command line.  The program name ends at its
closing quote or, unquoted, at the first blank.  In the arguments after it a
quote begins or ends a quoted part, and backslashes are special only in front of
a quote: `2n` of them stand for `n`, and one more makes the quote literal.

Two runtimes differ in what follows a doubled quote inside a quoted part, so that
choice is a parameter.  An argument that is quoted, with its quotes and the
backslashes before them escaped, is read back whatever the choice.
-/

import Mathlib.Data.List.Basic

namespace Ngsm.Lib

namespace ArgumentVector

/-- The characters that separate arguments. -/
def isBlank (c : Char) : Bool :=
  c == ' ' || c == '\t'

/-- Where an argument stands with respect to its quoted parts. -/
inductive Quoting where
  | outside
  | inside
  /-- The last character was the quote that ended a quoted part. -/
  | closed
  deriving DecidableEq, Repr

/-- An argument that is being read. -/
structure Arg where
  chars : List Char := []
  /-- Backslashes that have been read and not been interpreted yet. -/
  slashes : Nat := 0
  quoting : Quoting := .outside
  deriving DecidableEq, Repr

def backslashes (n : Nat) : List Char :=
  List.replicate n '\\'

namespace Arg

/-- The argument when nothing follows it. -/
def finish (a : Arg) : List Char :=
  a.chars ++ backslashes a.slashes

/-- Read one character.  `doubled` is where the argument stands after the second
of two quotes inside a quoted part. -/
def read (doubled : Quoting) (a : Arg) (c : Char) : Arg :=
  if c = '\\' then
    { a with
      slashes := a.slashes + 1
      quoting := if a.quoting = .closed then .outside else a.quoting }
  else if c = '"' then
    if a.slashes % 2 = 1 then
      { a with chars := a.chars ++ backslashes (a.slashes / 2) ++ ['"'], slashes := 0 }
    else
      match a.quoting with
      | .outside =>
          { chars := a.chars ++ backslashes (a.slashes / 2), slashes := 0, quoting := .inside }
      | .inside =>
          { chars := a.chars ++ backslashes (a.slashes / 2), slashes := 0, quoting := .closed }
      | .closed => { chars := a.chars ++ ['"'], slashes := 0, quoting := doubled }
  else
    { chars := a.chars ++ backslashes a.slashes ++ [c]
      slashes := 0
      quoting := if a.quoting = .closed then .outside else a.quoting }

end Arg

/-- Split what follows the program name; the first parameter is the argument that
has been begun. -/
def split (doubled : Quoting) : Option Arg → List Char → List (List Char)
  | none, [] => []
  | some a, [] => [a.finish]
  | none, c :: cs =>
      if isBlank c then split doubled none cs else split doubled (some (Arg.read doubled {} c)) cs
  | some a, c :: cs =>
      if isBlank c ∧ a.quoting ≠ .inside then
        a.finish :: split doubled none cs
      else
        split doubled (some (a.read doubled c)) cs

/-- The program name and what follows it. -/
def programName : List Char → List Char × List Char
  | '"' :: cs => (cs.takeWhile (· != '"'), (cs.dropWhile (· != '"')).tail)
  | cs => (cs.takeWhile fun c => !isBlank c, cs.dropWhile fun c => !isBlank c)

/-- The argument vector of a command line. -/
def parse (doubled : Quoting) (line : List Char) : List (List Char) :=
  (programName line).1 :: split doubled none (programName line).2

/-! ## Escaping -/

/-- Escape the characters of a quoted part, with so many backslashes held back
until it is known what follows them. -/
def escape : Nat → List Char → List Char
  | n, [] => backslashes (2 * n)
  | n, c :: cs =>
      if c = '\\' then escape (n + 1) cs
      else if c = '"' then backslashes (2 * n + 1) ++ '"' :: escape 0 cs
      else backslashes n ++ c :: escape 0 cs

/-- A quoted argument. -/
def quoted (cs : List Char) : List Char :=
  '"' :: (escape 0 cs ++ ['"'])

section

variable {doubled : Quoting}

theorem backslashes_succ (n : Nat) : backslashes (n + 1) = backslashes n ++ ['\\'] := by
  unfold backslashes
  rw [List.replicate_succ']

theorem split_inside (p : List Char) (n : Nat) (c : Char) (cs : List Char) :
    split doubled (some ⟨p, n, .inside⟩) (c :: cs) =
      split doubled (some (Arg.read doubled ⟨p, n, .inside⟩ c)) cs := by
  simp [split]

/-- Backslashes are held back until another character comes. -/
theorem split_backslashes (p : List Char) (n k : Nat) (rest : List Char) :
    split doubled (some ⟨p, n, .inside⟩) (backslashes k ++ rest) =
      split doubled (some ⟨p, n + k, .inside⟩) rest := by
  induction k generalizing n with
  | zero => rfl
  | succ k ih =>
      change split doubled (some ⟨p, n, .inside⟩) ('\\' :: (backslashes k ++ rest)) = _
      rw [split_inside]
      have hread : Arg.read doubled ⟨p, n, .inside⟩ '\\' = ⟨p, n + 1, .inside⟩ := by
        simp [Arg.read]
      rw [hread, ih, Nat.add_right_comm, Nat.add_assoc]

/-- The escaped characters of a quoted part are read as the characters. -/
theorem split_escape (p : List Char) (n : Nat) (cs rest : List Char) :
    split doubled (some ⟨p, 0, .inside⟩) (escape n cs ++ '"' :: rest) =
      split doubled (some ⟨p ++ backslashes n ++ cs, 0, .closed⟩) rest := by
  induction cs generalizing p n with
  | nil =>
      rw [escape, split_backslashes, split_inside]
      congr 2
      simp [Arg.read]
  | cons c cs ih =>
      by_cases hslash : c = '\\'
      · rw [escape, if_pos hslash, ih, backslashes_succ, hslash]
        simp
      · by_cases hquote : c = '"'
        · have hread : Arg.read doubled ⟨p, 0 + (2 * n + 1), .inside⟩ '"' =
              ⟨p ++ backslashes n ++ ['"'], 0, .inside⟩ := by
            have hhalf : (2 * n + 1) / 2 = n := by omega
            simp [Arg.read, hhalf]
          rw [escape, if_neg hslash, if_pos hquote, List.append_assoc, split_backslashes]
          change split doubled _ ('"' :: (escape 0 cs ++ '"' :: rest)) = _
          rw [split_inside, hread, ih, hquote]
          simp [backslashes]
        · have hread : Arg.read doubled ⟨p, 0 + n, .inside⟩ c =
              ⟨p ++ backslashes n ++ [c], 0, .inside⟩ := by
            simp [Arg.read, hslash, hquote]
          rw [escape, if_neg hslash, if_neg hquote, List.append_assoc, split_backslashes]
          change split doubled _ (c :: (escape 0 cs ++ '"' :: rest)) = _
          rw [split_inside, hread, ih]
          simp [backslashes]

/-- A quoted argument is read up to its closing quote. -/
theorem split_quoted (cs rest : List Char) :
    split doubled none (quoted cs ++ rest) = split doubled (some ⟨cs, 0, .closed⟩) rest := by
  have hstart : Arg.read doubled {} '"' = ⟨[], 0, .inside⟩ := by
    simp [Arg.read, backslashes]
  change split doubled none ('"' :: (escape 0 cs ++ ['"'] ++ rest)) = _
  rw [split, if_neg (by decide), hstart, List.append_assoc]
  rw [show ['"'] ++ rest = '"' :: rest from rfl, split_escape]
  simp [backslashes]

/-- Characters that need no quotes are read as they stand. -/
theorem split_plain (cs rest : List Char) (hplain : ∀ c ∈ cs, isBlank c = false ∧ c ≠ '"')
    (p : List Char) (n : Nat) :
    ∃ p' n', split doubled (some ⟨p, n, .outside⟩) (cs ++ rest) =
        split doubled (some ⟨p', n', .outside⟩) rest ∧
      p' ++ backslashes n' = p ++ backslashes n ++ cs := by
  induction cs generalizing p n with
  | nil => exact ⟨p, n, rfl, by simp⟩
  | cons c cs ih =>
      obtain ⟨hblank, hquote⟩ := hplain c List.mem_cons_self
      have hstep : split doubled (some ⟨p, n, .outside⟩) (c :: cs ++ rest) =
          split doubled (some (Arg.read doubled ⟨p, n, .outside⟩ c)) (cs ++ rest) := by
        simp [split, hblank]
      have hrest : ∀ c ∈ cs, isBlank c = false ∧ c ≠ '"' := fun d hd =>
        hplain d (List.mem_cons_of_mem _ hd)
      by_cases hslash : c = '\\'
      · obtain ⟨p', n', hsplit, hchars⟩ := ih hrest p (n + 1)
        refine ⟨p', n', ?_, ?_⟩
        · rw [hstep, ← hsplit]
          simp [Arg.read, hslash]
        · rw [hchars, backslashes_succ, hslash]
          simp
      · obtain ⟨p', n', hsplit, hchars⟩ := ih hrest (p ++ backslashes n ++ [c]) 0
        refine ⟨p', n', ?_, ?_⟩
        · rw [hstep, ← hsplit]
          simp [Arg.read, hslash, hquote]
        · rw [hchars]
          simp [backslashes]

/-- An argument that was read to its end is taken before a blank and at the end. -/
theorem split_end (a : Arg) (hquoting : a.quoting ≠ .inside) :
    split doubled (some a) [] = [a.finish] ∧
      ∀ c cs, isBlank c = true →
        split doubled (some a) (c :: cs) = a.finish :: split doubled none cs := by
  refine ⟨rfl, fun c cs hblank => ?_⟩
  rw [split, if_pos ⟨hblank, hquoting⟩]

end

/-- A way to write arguments, each of which is read back on its own. -/
def Readable (doubled : Quoting) (write : List Char → List Char) : Prop :=
  ∀ cs rest, ∃ a : Arg, a.quoting ≠ .inside ∧ a.finish = cs ∧
    split doubled none (write cs ++ rest) = split doubled (some a) rest

/-- Arguments written one after the other with blanks between them are read back. -/
theorem Readable.split_join {doubled : Quoting} {write : List Char → List Char}
    (h : Readable doubled write) (args : List (List Char)) :
    split doubled none ([' '].intercalate (args.map write)) = args := by
  induction args with
  | nil => rfl
  | cons arg args ih =>
      cases args with
      | nil =>
          obtain ⟨a, hquoting, hfinish, hsplit⟩ := h arg []
          rw [List.append_nil] at hsplit
          rw [List.map_singleton, List.intercalate_singleton, hsplit, (split_end a hquoting).1,
            hfinish]
      | cons next args =>
          obtain ⟨a, hquoting, hfinish, hsplit⟩ :=
            h arg (' ' :: [' '].intercalate ((next :: args).map write))
          rw [List.map_cons, List.map_cons, List.intercalate_cons_cons, List.append_assoc]
          rw [List.map_cons] at hsplit ih
          rw [List.singleton_append, hsplit, (split_end a hquoting).2 _ _ rfl, hfinish, ih]

/-- Quoting is a way to write arguments that is read back. -/
theorem readable_quoted (doubled : Quoting) : Readable doubled quoted := by
  intro cs rest
  refine ⟨⟨cs, 0, .closed⟩, by simp, ?_, split_quoted cs rest⟩
  simp [Arg.finish, backslashes]

/-- So are the characters themselves, unless they are none or need quotes. -/
theorem split_plain_arg {doubled : Quoting} {cs : List Char} (hnonempty : cs ≠ [])
    (hplain : ∀ c ∈ cs, isBlank c = false ∧ c ≠ '"') (rest : List Char) :
    ∃ a : Arg, a.quoting ≠ .inside ∧ a.finish = cs ∧
      split doubled none (cs ++ rest) = split doubled (some a) rest := by
  cases cs with
  | nil => exact absurd rfl hnonempty
  | cons c cs =>
      obtain ⟨hblank, -⟩ := hplain c List.mem_cons_self
      obtain ⟨p, n, hsplit, hchars⟩ :
          ∃ p n, split doubled (some ⟨[], 0, .outside⟩) (c :: cs ++ rest) =
              split doubled (some ⟨p, n, .outside⟩) rest ∧
            p ++ backslashes n = [] ++ backslashes 0 ++ (c :: cs) :=
        split_plain (c :: cs) rest hplain [] 0
      refine ⟨⟨p, n, .outside⟩, by simp, ?_, ?_⟩
      · simpa [Arg.finish, backslashes] using hchars
      · rw [← hsplit]
        simp [split, hblank]

/-! ## The program name -/

/-- A program name without quotes that does not end in a backslash is left as it is
by the escaping. -/
theorem escape_of_noQuote (n : Nat) (init : List Char) (last : Char) (hlast : last ≠ '\\')
    (hquote : '"' ∉ init ++ [last]) :
    escape n (init ++ [last]) = backslashes n ++ (init ++ [last]) := by
  induction init generalizing n with
  | nil =>
      have hne : last ≠ '"' := fun h => hquote (by simp [h])
      rw [List.nil_append, escape, if_neg hlast, if_neg hne]
      rfl
  | cons c cs ih =>
      have hrest : '"' ∉ cs ++ [last] := fun h => hquote (List.mem_cons_of_mem c h)
      have hne : c ≠ '"' := fun h => hquote (by simp [h])
      by_cases hslash : c = '\\'
      · rw [List.cons_append, escape, if_pos hslash, ih _ hrest, backslashes_succ, hslash]
        simp
      · rw [List.cons_append, escape, if_neg hslash, if_neg hne, ih _ hrest]
        rfl

theorem takeWhile_append_stop {p : Char → Bool} {cs : List Char} {c : Char} (rest : List Char)
    (hkeep : ∀ x ∈ cs, p x = true) (hstop : p c = false) :
    (cs ++ c :: rest).takeWhile p = cs ∧ (cs ++ c :: rest).dropWhile p = c :: rest := by
  constructor
  · rw [List.takeWhile_append_of_pos hkeep, List.takeWhile_cons_of_neg (by simp [hstop]),
      List.append_nil]
  · rw [List.dropWhile_append_of_pos hkeep, List.dropWhile_cons_of_neg (by simp [hstop])]

/-- The name of a quoted program. -/
theorem programName_quoted {cs rest : List Char} (hquote : '"' ∉ cs) :
    programName ('"' :: (cs ++ '"' :: rest)) = (cs, rest) := by
  have hkeep : ∀ x ∈ cs, (x != '"') = true := by
    intro x hx
    simp only [bne_iff_ne, ne_eq]
    rintro rfl
    exact hquote hx
  have hstop : ('"' != '"') = false := by decide
  obtain ⟨htake, hdrop⟩ := takeWhile_append_stop rest hkeep hstop
  rw [programName, htake, hdrop]
  rfl

/-- The name of a program that is not quoted. -/
theorem programName_plain {cs rest : List Char} {blank : Char} (hblank : isBlank blank = true)
    (hnonempty : cs ≠ []) (hplain : ∀ c ∈ cs, isBlank c = false ∧ c ≠ '"') :
    programName (cs ++ blank :: rest) = (cs, blank :: rest) := by
  have hkeep : ∀ x ∈ cs, (!isBlank x) = true := fun x hx => by simp [(hplain x hx).1]
  have hstop : (!isBlank blank) = false := by simp [hblank]
  obtain ⟨htake, hdrop⟩ := takeWhile_append_stop rest hkeep hstop
  cases cs with
  | nil => exact absurd rfl hnonempty
  | cons c cs =>
      have hne := (hplain c List.mem_cons_self).2
      have hname : programName (c :: cs ++ blank :: rest) =
          ((c :: cs ++ blank :: rest).takeWhile (fun c => !isBlank c),
            (c :: cs ++ blank :: rest).dropWhile fun c => !isBlank c) := by
        rw [List.cons_append, programName]
        rintro tail ⟨⟩
        exact hne rfl
      rw [hname, htake, hdrop]

end ArgumentVector

end Ngsm.Lib
