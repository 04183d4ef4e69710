import Mathlib.Data.List.Basic
import Mathlib.Data.List.Count

/-!
# Base — splitting a command line

The rules by which a Windows program splits its command line into arguments, over any
alphabet with a quote, a backslash and blanks.

* Backslashes are literal unless a quote follows: `2n` before a quote give `n` and the
  quote delimits, `2n + 1` give `n` and a literal quote (`lexFrom`).
* A delimiting quote switches quoting on or off, also right after another one; a blank
  outside quotes ends an argument (`splitTokens`).
* The program's name comes first and knows no escapes (`argv`).

`quoted` wraps an argument in quotes and escapes the quotes in it, and only these. Main
result: `splitArgs_quoted_iff` — a line of arguments quoted so splits into them exactly
if in each of them every backslash is followed by something, and that is no quote.

Both directions go through the lexer: a faithful argument lexes to itself before its
closing quote (`lexFrom_faithful`), and any other loses backslashes or quotes
(`lexFrom_loses`). Splitting drops blanks only, so what the lexer lost stays lost.
-/

namespace Uniwm.Base

/-- The characters with a meaning of their own. -/
structure Alphabet (α : Type*) where
  quote : α
  backslash : α
  blank : α → Bool
  quote_ne_backslash : quote ≠ backslash
  blank_quote : blank quote = false
  blank_backslash : blank backslash = false

/-- What a command line consists of: literal characters and delimiting quotes. -/
inductive Token (α : Type*) where
  | lit (c : α)
  | quote
deriving DecidableEq

variable {α : Type*} [DecidableEq α] (a : Alphabet α)

/-! ## The rules -/

/-- Resolve the backslashes, `n` of them having been read just before. -/
def lexFrom : Nat → List α → List (Token α)
  | n, [] => List.replicate n (.lit a.backslash)
  | n, c :: cs =>
    if c = a.backslash then lexFrom (n + 1) cs
    else if c = a.quote then
      List.replicate (n / 2) (.lit a.backslash) ++
        (if n % 2 = 1 then .lit a.quote else .quote) :: lexFrom 0 cs
    else List.replicate n (.lit a.backslash) ++ .lit c :: lexFrom 0 cs

/-- Collect arguments, inside quotes or not; `cur` is the argument under way, if there is
one. -/
def splitTokens (inQuotes : Bool) (cur : Option (List α)) : List (Token α) → List (List α)
  | [] => cur.toList
  | .quote :: ts => splitTokens (!inQuotes) (some (cur.getD [])) ts
  | .lit c :: ts =>
    if a.blank c && !inQuotes then cur.toList ++ splitTokens inQuotes none ts
    else splitTokens inQuotes (some (cur.getD [] ++ [c])) ts

/-- The arguments after the program's name. -/
def splitArgs (line : List α) : List (List α) := splitTokens a false none (lexFrom a 0 line)

/-- Split off the program's name: up to the next quote if it starts with one, else up to
a blank. -/
def splitProgram : List α → List α × List α
  | [] => ([], [])
  | c :: cs =>
    if c = a.quote then (cs.takeWhile (· ≠ a.quote), (cs.dropWhile (· ≠ a.quote)).drop 1)
    else ((c :: cs).takeWhile (!a.blank ·), (c :: cs).dropWhile (!a.blank ·))

/-- The program's name and its arguments. -/
def argv (line : List α) : List (List α) :=
  (splitProgram a line).1 :: splitArgs a (splitProgram a line).2

/-! ## Quoting that escapes quotes only -/

/-- A backslash before each quote. -/
def escaped (s : List α) : List α :=
  s.flatMap fun c => if c = a.quote then [a.backslash, c] else [c]

/-- An argument in quotes. -/
def quoted (s : List α) : List α := a.quote :: escaped a s ++ [a.quote]

/-- Every backslash is followed by a character, and that is no quote. -/
def Faithful : List α → Prop
  | [] => True
  | c :: s => (c = a.backslash → ∃ d ∈ s.head?, d ≠ a.quote) ∧ Faithful s

variable {a} {s rest : List α} {n : Nat}

@[simp] theorem escaped_nil : escaped a [] = [] := rfl

@[simp] theorem escaped_quote :
    escaped a (a.quote :: s) = a.backslash :: a.quote :: escaped a s := by
  simp [escaped]

theorem escaped_cons {c : α} (hc : c ≠ a.quote) : escaped a (c :: s) = c :: escaped a s := by
  simp [escaped, hc]

theorem escaped_of_notMem (hs : a.quote ∉ s) : escaped a s = s := by
  induction s with
  | nil => rfl
  | cons c s ih =>
    rw [List.mem_cons, not_or] at hs
    rw [escaped_cons (Ne.symm hs.1), ih hs.2]

/-! ## Lexing -/

@[simp] theorem lexFrom_backslash (cs : List α) :
    lexFrom a n (a.backslash :: cs) = lexFrom a (n + 1) cs := by
  rw [lexFrom, if_pos rfl]

@[simp] theorem lexFrom_quote (cs : List α) :
    lexFrom a n (a.quote :: cs) = List.replicate (n / 2) (.lit a.backslash) ++
      (if n % 2 = 1 then .lit a.quote else .quote) :: lexFrom a 0 cs := by
  rw [lexFrom, if_neg a.quote_ne_backslash, if_pos rfl]

theorem lexFrom_lit {c : α} (hb : c ≠ a.backslash) (hq : c ≠ a.quote) (cs : List α) :
    lexFrom a n (c :: cs) =
      List.replicate n (.lit a.backslash) ++ .lit c :: lexFrom a 0 cs := by
  rw [lexFrom, if_neg hb, if_neg hq]

/-- After a quote lexing starts afresh. -/
theorem lexFrom_append_quote (xs rest : List α) :
    lexFrom a n (xs ++ a.quote :: rest) =
      lexFrom a n (xs ++ [a.quote]) ++ lexFrom a 0 rest := by
  induction xs generalizing n with
  | nil =>
    have hnil : lexFrom a 0 ([] : List α) = [] := rfl
    simp [hnil]
  | cons c xs ih =>
    rw [List.cons_append, List.cons_append]
    by_cases hb : c = a.backslash
    · rw [hb, lexFrom_backslash, lexFrom_backslash, ih]
    · by_cases hq : c = a.quote
      · rw [hq, lexFrom_quote, lexFrom_quote, ih, List.append_assoc, List.cons_append]
      · rw [lexFrom_lit hb hq, lexFrom_lit hb hq, ih, List.append_assoc, List.cons_append]

/-- The rest of a faithful argument, `n` of its backslashes having been read. -/
def FaithfulAfter (a : Alphabet α) (n : Nat) (s : List α) : Prop :=
  (0 < n → ∃ d ∈ s.head?, d ≠ a.quote) ∧ Faithful a s

/-- A faithful argument lexes to itself and a delimiter. -/
theorem lexFrom_faithful (h : FaithfulAfter a n s) :
    lexFrom a n (escaped a s ++ [a.quote]) =
      List.replicate n (.lit a.backslash) ++ s.map .lit ++ [.quote] := by
  induction s generalizing n with
  | nil =>
    have hn : n = 0 := by
      by_contra hn
      obtain ⟨d, hd, -⟩ := h.1 (Nat.pos_of_ne_zero hn)
      simp at hd
    subst hn
    simp [lexFrom]
  | cons c s ih =>
    obtain ⟨hpending, hnext, hs⟩ := h
    by_cases hb : c = a.backslash
    · subst hb
      -- one more backslash pending, and something other than a quote follows it
      rw [escaped_cons a.quote_ne_backslash.symm, List.cons_append, lexFrom_backslash,
        ih ⟨fun _ => hnext rfl, hs⟩]
      simp [List.replicate_succ']
    · have hafter : FaithfulAfter a 0 s := ⟨fun h => absurd h (Nat.lt_irrefl 0), hs⟩
      by_cases hq : c = a.quote
      -- no backslash is pending before a quote, so the one written before it escapes it
      · subst hq
        have hn : n = 0 := by
          by_contra hn
          obtain ⟨d, hd, hne⟩ := hpending (Nat.pos_of_ne_zero hn)
          simp only [List.head?_cons, Option.mem_some_iff] at hd
          exact hne hd.symm
        subst hn
        rw [escaped_quote, List.cons_append, List.cons_append, lexFrom_backslash, lexFrom_quote,
          ih hafter]
        simp
      · rw [escaped_cons hq, List.cons_append, lexFrom_lit hb hq, ih hafter]
        simp

/-! ## What lexing loses -/

/-- The tokens have no more backslashes than `n` and those of `s`; if as many, no more
literal quotes than `s`; and if as many of both, then `s` is faithful. -/
def Loses (a : Alphabet α) (n : Nat) (s : List α) (ts : List (Token α)) : Prop :=
  ts.count (.lit a.backslash) ≤ n + s.count a.backslash ∧
    (ts.count (.lit a.backslash) = n + s.count a.backslash →
      ts.count (.lit a.quote) ≤ s.count a.quote ∧
        (ts.count (.lit a.quote) = s.count a.quote → FaithfulAfter a n s))

/-- What a quote after `n` backslashes becomes. -/
theorem count_quote_token (m : Nat) (ts : List (Token α)) :
    (List.replicate m (Token.lit a.backslash) ++
        (if n % 2 = 1 then Token.lit a.quote else Token.quote) :: ts).count
          (Token.lit a.backslash) =
      m + ts.count (Token.lit a.backslash) ∧
    (List.replicate m (Token.lit a.backslash) ++
        (if n % 2 = 1 then Token.lit a.quote else Token.quote) :: ts).count
          (Token.lit a.quote) =
      n % 2 + ts.count (Token.lit a.quote) := by
  have hne := a.quote_ne_backslash
  rcases Nat.mod_two_eq_zero_or_one n with h | h
  · simp [h, List.count_replicate, hne.symm]
  · simp [h, List.count_replicate, hne, hne.symm]
    omega

/-- Of the `n` backslashes before the closing quote half are lost. -/
theorem loses_nil (n : Nat) : Loses a n [] (lexFrom a n [a.quote]) := by
  obtain ⟨hbackslash, hquote⟩ := count_quote_token (a := a) (n := n) (n / 2) []
  rw [Loses, lexFrom_quote, show lexFrom a 0 ([] : List α) = [] from rfl, hbackslash, hquote]
  simp only [List.count_nil, Nat.add_zero]
  refine ⟨Nat.div_le_self n 2, ?_⟩
  intro hcount
  obtain rfl : n = 0 := by omega
  exact ⟨Nat.le_refl 0, fun _ => ⟨fun h => absurd h (Nat.lt_irrefl 0), trivial⟩⟩

/-- A backslash is kept pending, and the rest decides. -/
theorem Loses.backslash {ts : List (Token α)} (h : Loses a (n + 1) s ts) :
    Loses a n (a.backslash :: s) ts := by
  have hne := a.quote_ne_backslash.symm
  obtain ⟨hle, heq⟩ := h
  rw [Loses, List.count_cons_self, List.count_cons_of_ne hne]
  refine ⟨by omega, ?_⟩
  intro hcount
  obtain ⟨hquotes, hfaithful⟩ := heq (by omega)
  refine ⟨hquotes, ?_⟩
  intro hcount'
  obtain ⟨hnext, hs⟩ := hfaithful hcount'
  exact ⟨fun _ => ⟨a.backslash, rfl, hne⟩, fun _ => hnext (Nat.succ_pos n), hs⟩

/-- Of the `n + 1` backslashes before an escaped quote one is lost unless `n` is 0 or 1, and if
it is 1 the quote is lost. -/
theorem Loses.quote {ts : List (Token α)} (h : Loses a 0 s ts) :
    Loses a n (a.quote :: s) (List.replicate ((n + 1) / 2) (.lit a.backslash) ++
      (if (n + 1) % 2 = 1 then .lit a.quote else .quote) :: ts) := by
  have hne := a.quote_ne_backslash
  obtain ⟨hle, heq⟩ := h
  obtain ⟨hbackslash, hquote⟩ := count_quote_token (a := a) (n := n + 1) ((n + 1) / 2) ts
  rw [Loses, List.count_cons_of_ne hne, List.count_cons_self, hbackslash, hquote]
  refine ⟨by omega, ?_⟩
  intro hcount
  obtain ⟨hquotes, hfaithful⟩ := heq (by omega)
  refine ⟨by omega, ?_⟩
  intro hcount'
  obtain rfl : n = 0 := by omega
  obtain ⟨-, hs⟩ := hfaithful (by omega)
  exact ⟨fun h => absurd h (Nat.lt_irrefl 0), fun h => absurd h hne, hs⟩

/-- Before any other character the backslashes pending are literal. -/
theorem Loses.lit {c : α} (hb : c ≠ a.backslash) (hq : c ≠ a.quote) {ts : List (Token α)}
    (h : Loses a 0 s ts) :
    Loses a n (c :: s) (List.replicate n (.lit a.backslash) ++ .lit c :: ts) := by
  have hbackslash : (Token.lit c : Token α) ≠ .lit a.backslash := by simpa using hb
  have hquote : (Token.lit c : Token α) ≠ .lit a.quote := by simpa using hq
  have hnone : (if ((Token.lit a.backslash : Token α) == .lit a.quote) = true then n else 0) =
      0 := by simp [a.quote_ne_backslash.symm]
  obtain ⟨hle, heq⟩ := h
  rw [Loses, List.count_cons_of_ne hb, List.count_cons_of_ne hq, List.count_append,
    List.count_append, List.count_replicate_self, List.count_cons_of_ne hbackslash,
    List.count_cons_of_ne hquote, List.count_replicate, hnone]
  refine ⟨by omega, ?_⟩
  intro hcount
  obtain ⟨hquotes, hfaithful⟩ := heq (by omega)
  refine ⟨by omega, ?_⟩
  intro hcount'
  obtain ⟨-, hs⟩ := hfaithful (by omega)
  exact ⟨fun _ => ⟨c, rfl, hq⟩, fun h => absurd h hb, hs⟩

/-- Lexing an argument gains nothing, and an argument that is not faithful loses. -/
theorem lexFrom_loses (s : List α) (n : Nat) :
    Loses a n s (lexFrom a n (escaped a s ++ [a.quote])) := by
  induction s generalizing n with
  | nil => exact loses_nil n
  | cons c s ih =>
    by_cases hb : c = a.backslash
    · subst hb
      rw [escaped_cons a.quote_ne_backslash.symm, List.cons_append, lexFrom_backslash]
      exact (ih (n + 1)).backslash
    · by_cases hq : c = a.quote
      · subst hq
        rw [escaped_quote, List.cons_append, List.cons_append, lexFrom_backslash, lexFrom_quote]
        exact (ih 0).quote
      · rw [escaped_cons hq, List.cons_append, lexFrom_lit hb hq]
        exact (ih 0).lit hb hq

/-! ## Splitting -/

/-- Splitting drops blanks only. -/
theorem splitTokens_count {x : α} (hx : a.blank x = false) (inQuotes : Bool)
    (cur : Option (List α)) (ts : List (Token α)) :
    (splitTokens a inQuotes cur ts).flatten.count x =
      (cur.getD []).count x + ts.count (.lit x) := by
  induction ts generalizing inQuotes cur with
  | nil => cases cur <;> simp [splitTokens]
  | cons t ts ih =>
    cases t with
    | quote =>
      rw [splitTokens, ih, List.count_cons_of_ne (by simp)]
      rfl
    | lit c =>
      rw [splitTokens]
      split
      · next hblank =>
        -- the blank dropped is not `x`
        have hcx : c ≠ x := by
          rintro rfl
          simp [hx] at hblank
        rw [List.flatten_append, List.count_append, ih,
          List.count_cons_of_ne (by simpa using hcx)]
        cases cur <;> simp
      · rw [ih]
        by_cases hcx : c = x
        · subst hcx
          simp
          omega
        · simp [hcx]

omit [DecidableEq α] in
/-- Inside quotes literals are collected. -/
theorem splitTokens_lits (s cur : List α) (ts : List (Token α)) :
    splitTokens a true (some cur) (s.map .lit ++ ts) =
      splitTokens a true (some (cur ++ s)) ts := by
  induction s generalizing cur with
  | nil => simp
  | cons c s ih =>
    rw [List.map_cons, List.cons_append, splitTokens]
    simp [ih]

/-- A line of arguments in quotes, each after a blank. -/
def quotedLine (a : Alphabet α) (blank : α) (args : List (List α)) : List α :=
  args.flatMap fun s => blank :: quoted a s

theorem lexFrom_quotedLine {blank : α} (hblank : a.blank blank = true) (s : List α)
    (args : List (List α)) :
    lexFrom a 0 (quotedLine a blank (s :: args)) =
      .lit blank :: .quote :: lexFrom a 0 (escaped a s ++ [a.quote]) ++
        lexFrom a 0 (quotedLine a blank args) := by
  have hb : blank ≠ a.backslash := by
    rintro rfl
    simp [a.blank_backslash] at hblank
  have hq : blank ≠ a.quote := by
    rintro rfl
    simp [a.blank_quote] at hblank
  have hline : quotedLine a blank (s :: args) =
      blank :: a.quote :: (escaped a s ++ a.quote :: quotedLine a blank args) := by
    simp [quotedLine, quoted]
  rw [hline, lexFrom_lit hb hq, lexFrom_quote, lexFrom_append_quote]
  simp

/-- Faithful arguments are split as they are. -/
theorem splitTokens_quotedLine {blank : α} (hblank : a.blank blank = true)
    {args : List (List α)} (h : ∀ s ∈ args, Faithful a s) (cur : Option (List α)) :
    splitTokens a false cur (lexFrom a 0 (quotedLine a blank args)) = cur.toList ++ args := by
  induction args generalizing cur with
  | nil => simp [quotedLine, lexFrom, splitTokens]
  | cons s args ih =>
    rw [List.forall_mem_cons] at h
    have hs : FaithfulAfter a 0 s := ⟨fun h => absurd h (Nat.lt_irrefl 0), h.1⟩
    -- a blank, the quote that opens, the argument, the quote that closes
    rw [lexFrom_quotedLine hblank, lexFrom_faithful hs]
    simp only [List.replicate_zero, List.nil_append, List.cons_append, List.append_assoc]
    rw [splitTokens]
    simp only [hblank, Bool.not_false, Bool.and_self, if_true]
    rw [splitTokens, Bool.not_false, splitTokens_lits, splitTokens, Bool.not_true, ih h.2]
    simp

/-- Counted over a line, lexing gains nothing, and a line with an argument that is not
faithful loses. -/
theorem lexFrom_quotedLine_loses {blank : α} (hblank : a.blank blank = true)
    (args : List (List α)) :
    (lexFrom a 0 (quotedLine a blank args)).count (.lit a.backslash) ≤
        args.flatten.count a.backslash ∧
      ((lexFrom a 0 (quotedLine a blank args)).count (.lit a.backslash) =
          args.flatten.count a.backslash →
        (lexFrom a 0 (quotedLine a blank args)).count (.lit a.quote) ≤
            args.flatten.count a.quote ∧
          ((lexFrom a 0 (quotedLine a blank args)).count (.lit a.quote) =
            args.flatten.count a.quote → ∀ s ∈ args, Faithful a s)) := by
  have hb : (Token.lit blank : Token α) ≠ .lit a.backslash := by
    intro h
    simp only [Token.lit.injEq] at h
    simp [h, a.blank_backslash] at hblank
  have hq : (Token.lit blank : Token α) ≠ .lit a.quote := by
    intro h
    simp only [Token.lit.injEq] at h
    simp [h, a.blank_quote] at hblank
  induction args with
  | nil => simp [quotedLine, lexFrom]
  | cons s args ih =>
    obtain ⟨hle, heq⟩ := lexFrom_loses (a := a) s 0
    obtain ⟨hle', heq'⟩ := ih
    rw [lexFrom_quotedLine hblank]
    simp only [List.cons_append, List.count_cons_of_ne hb, List.count_cons_of_ne hq,
      List.count_cons_of_ne (by simp : (Token.quote : Token α) ≠ .lit a.backslash),
      List.count_cons_of_ne (by simp : (Token.quote : Token α) ≠ .lit a.quote),
      List.count_append, List.flatten_cons, List.forall_mem_cons]
    refine ⟨by omega, ?_⟩
    intro hcount
    obtain ⟨hquotes, hfaithful⟩ := heq (by omega)
    obtain ⟨hquotes', hfaithful'⟩ := heq' (by omega)
    refine ⟨by omega, fun hcount' => ⟨(hfaithful (by omega)).2, hfaithful' (by omega)⟩⟩

/-- **Quoting that escapes quotes only.** A line of arguments quoted so splits into them
exactly if each is faithful. -/
theorem splitArgs_quoted_iff {blank : α} (hblank : a.blank blank = true)
    (args : List (List α)) :
    splitArgs a (quotedLine a blank args) = args ↔ ∀ s ∈ args, Faithful a s := by
  constructor
  · intro hsplit
    obtain ⟨-, heq⟩ := lexFrom_quotedLine_loses hblank args
    have hcount : ∀ {x : α}, a.blank x = false →
        (lexFrom a 0 (quotedLine a blank args)).count (.lit x) = args.flatten.count x := by
      intro x hx
      have := splitTokens_count hx false none (lexFrom a 0 (quotedLine a blank args))
      rw [Option.getD_none, List.count_nil, Nat.zero_add] at this
      rw [← this]
      exact congrArg (fun args : List (List α) => args.flatten.count x) hsplit
    -- split right, no backslash and no quote was lost
    exact (heq (hcount a.blank_backslash)).2 (hcount a.blank_quote)
  · intro h
    exact splitTokens_quotedLine hblank h none

/-- With a quoted name without quotes before it, the line splits into the name and the
arguments. -/
theorem argv_quoted {program : List α} (hprogram : a.quote ∉ program) (rest : List α) :
    argv a (a.quote :: program ++ a.quote :: rest) = program :: splitArgs a rest := by
  have hall : ∀ c ∈ program, (decide (c ≠ a.quote)) = true := fun c hc => by
    simpa using fun h : c = a.quote => hprogram (h ▸ hc)
  have hsplit : splitProgram a (a.quote :: program ++ a.quote :: rest) = (program, rest) := by
    rw [List.cons_append, splitProgram, if_pos rfl, List.takeWhile_append_of_pos hall,
      List.dropWhile_append_of_pos hall]
    simp
  rw [argv, hsplit]

/-- The first argument of a line is split off if it is quoted, faithful and followed by a blank,
whatever comes then. -/
theorem splitArgs_quoted_cons {blank : α} (hblank : a.blank blank = true) (hs : Faithful a s)
    (hrest : ∀ c ∈ rest.head?, a.blank c = true) :
    splitArgs a (blank :: quoted a s ++ rest) = s :: splitArgs a rest := by
  have hfaithful : FaithfulAfter a 0 s := ⟨fun h => absurd h (Nat.lt_irrefl 0), hs⟩
  have hneither : ∀ {c : α}, a.blank c = true → c ≠ a.backslash ∧ c ≠ a.quote := by
    intro c hc
    refine ⟨?_, ?_⟩
    · rintro rfl
      simp [a.blank_backslash] at hc
    · rintro rfl
      simp [a.blank_quote] at hc
  have hline : blank :: quoted a s ++ rest =
      blank :: a.quote :: (escaped a s ++ a.quote :: rest) := by simp [quoted]
  rw [splitArgs, hline, lexFrom_lit (hneither hblank).1 (hneither hblank).2, lexFrom_quote,
    lexFrom_append_quote, lexFrom_faithful hfaithful]
  simp only [List.replicate_zero, List.nil_append, List.append_assoc, Nat.zero_div, Nat.zero_mod,
    Nat.zero_ne_one, if_false]
  rw [splitTokens, hblank, Bool.not_false, Bool.and_self, if_pos rfl, splitTokens, Bool.not_false,
    Option.getD_none, splitTokens_lits, List.nil_append, List.singleton_append, splitTokens,
    Bool.not_true, Option.getD_some, Option.toList_none, List.nil_append, splitArgs]
  -- the quote has closed, and the next blank ends the argument
  cases rest with
  | nil => rfl
  | cons c rest =>
    have hc := hrest c rfl
    rw [lexFrom_lit (hneither hc).1 (hneither hc).2, List.replicate_zero, List.nil_append,
      splitTokens, splitTokens, hc, Bool.not_false, Bool.and_self, if_pos rfl, if_pos rfl]
    rfl

end Uniwm.Base
