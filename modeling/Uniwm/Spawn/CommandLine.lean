import Mathlib.Data.List.TakeWhile
import Uniwm.Model.Spawn

/-!
# uniwm — the worker's command line

What the worker finds as its arguments, by the rules of `Uniwm.Base.CommandLine` over the
alphabet `windows`.

While there is room, `append_quoted` appends the string in quotes with a backslash before
each quote (`appendQuoted_text`), so the command line is the quoted path followed by the
quoted arguments (`SpawnFits.buildCommandLine_eq`). It leaves alone the backslashes of the
string that come to stand before a quote, one of its own or the closing one.

So `spawned_argv_iff`: the worker's arguments are those given exactly if no argument has a
backslash before a quote or at its end. `spawned_argv_swallowed` gives two arguments, the
first of which ends in a backslash.
-/

namespace Uniwm

open Base

/-- The characters with a meaning to the splitting of a command line. -/
def windows : Alphabet WChar where
  quote := .quote
  backslash := .backslash
  blank c := c = .space || c = .tab
  quote_ne_backslash := by decide
  blank_quote := by decide
  blank_backslash := by decide

/-! ## Appending to the buffer -/

/-- What has been written. -/
def WText.text (t : WText) : List WChar := (List.range t.len).map t.buf

section Append

variable {cap : Nat} {t : WText} {s : List WChar}

@[simp] theorem WText.put_len (c : WChar) : (t.put c).len = t.len + 1 := rfl

@[simp] theorem WText.length_text : t.text.length = t.len := by
  simp [WText.text]

@[simp] theorem WText.text_put (c : WChar) : (t.put c).text = t.text ++ [c] := by
  have hbefore : ∀ i ∈ List.range t.len, (t.put c).buf i = t.buf i := by
    intro i hi
    rw [List.mem_range] at hi
    exact Function.update_of_ne (Nat.ne_of_lt hi) c t.buf
  have hlast : (t.put c).buf t.len = c := by simp [WText.put]
  rw [WText.text, WText.put_len, List.range_succ, List.map_append, List.map_congr_left hbefore,
    List.map_singleton, hlast]
  rfl

/-- Storing characters one behind the other. -/
def WText.puts (t : WText) (cs : List WChar) : WText := cs.foldl WText.put t

@[simp] theorem WText.puts_len (cs : List WChar) : (t.puts cs).len = t.len + cs.length := by
  induction cs generalizing t with
  | nil => rfl
  | cons c cs ih =>
    show ((t.put c).puts cs).len = _
    rw [ih, WText.put_len, List.length_cons]
    omega

theorem WText.text_puts (cs : List WChar) : (t.puts cs).text = t.text ++ cs := by
  induction cs generalizing t with
  | nil => simp [WText.puts]
  | cons c cs ih =>
    show ((t.put c).puts cs).text = _
    rw [ih, WText.text_put, List.append_assoc, List.singleton_append]

/-- Nothing else is stored to. -/
theorem WText.puts_outside (cs : List WChar) {p : Nat} (hp : p < t.len ∨ t.len + cs.length ≤ p) :
    (t.puts cs).buf p = t.buf p := by
  induction cs generalizing t with
  | nil => rfl
  | cons c cs ih =>
    rw [List.length_cons] at hp
    have hrest : ((t.put c).puts cs).buf p = (t.put c).buf p := by
      refine ih ?_
      rw [WText.put_len]
      omega
    have hne : p ≠ t.len := by omega
    show ((t.put c).puts cs).buf p = t.buf p
    rw [hrest]
    exact Function.update_of_ne hne c t.buf

/-- The way from `t` to `t'` stores characters behind the text, and leaves a place behind them. -/
def Appends (cap : Nat) (t t' : WText) : Prop :=
  ∃ cs, t' = t.puts cs ∧ (t.len < cap → t'.len < cap)

theorem Appends.refl (cap : Nat) (t : WText) : Appends cap t t := ⟨[], rfl, id⟩

theorem Appends.trans {t' t'' : WText} (h : Appends cap t t') (h' : Appends cap t' t'') :
    Appends cap t t'' := by
  obtain ⟨cs, rfl, hlen⟩ := h
  obtain ⟨cs', rfl, hlen'⟩ := h'
  exact ⟨cs ++ cs', by rw [WText.puts, WText.puts, WText.puts, List.foldl_append],
    fun ht => hlen' (hlen ht)⟩

theorem Appends.put (hroom : t.len + 1 < cap) (c : WChar) : Appends cap t (t.put c) :=
  ⟨[c], rfl, fun _ => hroom⟩

/-- Every store of `append_quoted` that is not in its loop is checked so. -/
theorem Appends.checked (cap : Nat) (t : WText) (c : WChar) :
    Appends cap t (if t.len + 1 < cap then t.put c else t) := by
  by_cases hroom : t.len + 1 < cap
  · rw [if_pos hroom]
    exact .put hroom c
  · rw [if_neg hroom]
    exact .refl cap t

theorem appendChars_appends (s : List WChar) : Appends cap t (appendChars cap t s) := by
  induction s generalizing t with
  | nil => exact .refl cap t
  | cons c s ih =>
    by_cases hgoes : c ≠ 0 ∧ t.len + 2 < cap
    · rw [appendChars, if_pos hgoes]
      have hroom : t.len + 2 < cap := hgoes.2
      -- the check leaves room for a backslash and the character
      by_cases hq : c = .quote
      · simp only [if_pos hq]
        have hsecond : (t.put .backslash).len + 1 < cap := by
          rw [WText.put_len]
          omega
        exact ((Appends.put (by omega) _).trans (.put hsecond c)).trans ih
      · simp only [if_neg hq]
        exact (Appends.put (by omega) c).trans ih
    · rw [appendChars, if_neg hgoes]
      exact .refl cap t

theorem appendQuoted_appends (s : List WChar) : Appends cap t (appendQuoted cap t s) :=
  ((Appends.checked cap t .quote).trans (appendChars_appends s)).trans (.checked cap _ .quote)

/-! ## The text appended -/

/-- The string at the start of a `NUL`-terminated array. -/
def cString (s : List WChar) : List WChar := s.takeWhile (· ≠ 0)

theorem cString_of_notMem (hNul : 0 ∉ s) : cString s = s := by
  rw [cString, List.takeWhile_eq_self_iff]
  intro c hc
  rw [decide_eq_true_eq]
  rintro rfl
  exact hNul hc

theorem zero_notMem_cString : 0 ∉ cString s := by
  intro hmem
  have := List.mem_takeWhile_imp hmem
  simp at this

theorem cString_cons {c : WChar} (hc : c ≠ 0) (s : List WChar) :
    cString (c :: s) = c :: cString s :=
  List.takeWhile_cons_of_pos (decide_eq_true hc)

/-- With room for the string and the quote after it, the loop appends the string with its
quotes escaped. -/
theorem appendChars_text (hFits : t.len + (escaped windows (cString s)).length + 1 < cap) :
    (appendChars cap t s).text = t.text ++ escaped windows (cString s) := by
  induction s generalizing t with
  | nil => simp [appendChars, cString]
  | cons c s ih =>
    by_cases hc : c = 0
    -- the end of the string
    · have hnone : cString (c :: s) = [] := by simp [cString, hc]
      rw [appendChars, if_neg (fun h => h.1 hc), hnone, escaped_nil, List.append_nil]
    rw [cString_cons hc] at hFits ⊢
    -- a quote takes two characters, and the check leaves room for both
    by_cases hq : c = .quote
    · have hesc : escaped windows (c :: cString s) =
          .backslash :: .quote :: escaped windows (cString s) := by
        rw [hq]
        exact escaped_quote
      rw [hesc, List.length_cons, List.length_cons] at hFits
      have hroom : t.len + 2 < cap := by omega
      rw [appendChars, if_pos ⟨hc, hroom⟩, hesc]
      simp only [hq, if_true]
      rw [ih (by simp only [WText.put_len]; omega)]
      simp
    · have hesc : escaped windows (c :: cString s) = c :: escaped windows (cString s) :=
        escaped_cons hq
      rw [hesc, List.length_cons] at hFits
      have hroom : t.len + 2 < cap := by omega
      rw [appendChars, if_pos ⟨hc, hroom⟩, hesc]
      simp only [hq, if_false]
      rw [ih (by simp only [WText.put_len]; omega)]
      simp

/-- With room for it all, `append_quoted` appends the string in quotes. -/
theorem appendQuoted_text (hFits : t.len + (quoted windows (cString s)).length < cap) :
    (appendQuoted cap t s).text = t.text ++ quoted windows (cString s) := by
  have hlen : (quoted windows (cString s)).length = (escaped windows (cString s)).length + 2 := by
    simp [quoted]
  -- each of the three checks finds the room it asks for
  have hopen : t.len + 1 < cap := by omega
  have hinner : (t.put .quote).len + (escaped windows (cString s)).length + 1 < cap := by
    rw [WText.put_len]
    omega
  have hchars := appendChars_text hinner
  have hclose : (appendChars cap (t.put .quote) s).len + 1 < cap := by
    rw [← WText.length_text, hchars]
    simp
    omega
  rw [appendQuoted, if_pos hopen]
  simp only [if_pos hclose, WText.text_put, hchars]
  simp [quoted, windows]

/-- The arguments that a conversion takes in. -/
theorem multiByteToWideChar_eq_some {wide : List UInt8 → Option (List WChar)} {arg : List UInt8}
    {warg : List WChar} (hWide : wide arg = some warg) (hCap : warg.length < argWideCap) :
    multiByteToWideChar wide arg = some warg := by
  simp [multiByteToWideChar, hWide, hCap]

/-- With room for it all, the loop appends the arguments in quotes, each after a space. -/
theorem appendArgs_text {wide : List UInt8 → Option (List WChar)} {args : List (List UInt8)}
    {wargs : List (List WChar)}
    (hWide : List.Forall₂ (fun arg warg => multiByteToWideChar wide arg = some warg) args wargs)
    (hFits : t.len + (quotedLine windows .space (wargs.map cString)).length < commandLineCap) :
    ∃ t', appendArgs wide t args = .ok t' ∧
      t'.text = t.text ++ quotedLine windows .space (wargs.map cString) := by
  induction hWide generalizing t with
  | nil => exact ⟨t, rfl, by simp [quotedLine]⟩
  | @cons arg warg args wargs harg _ ih =>
    have hline : quotedLine windows .space ((warg :: wargs).map cString) =
        .space :: (quoted windows (cString warg) ++
          quotedLine windows .space (wargs.map cString)) := by
      simp [quotedLine]
    rw [hline, List.length_cons, List.length_append] at hFits
    have hspace : t.len + 1 < commandLineCap := by omega
    have hroom : (t.put .space).len + (quoted windows (cString warg)).length <
        commandLineCap := by
      rw [WText.put_len]
      omega
    have hquoted := appendQuoted_text hroom
    have hlen : (appendQuoted commandLineCap (t.put .space) warg).len =
        t.len + 1 + (quoted windows (cString warg)).length := by
      rw [← WText.length_text, hquoted, List.length_append, WText.length_text, WText.put_len]
    obtain ⟨t', ht', htext⟩ := ih (t := appendQuoted commandLineCap (t.put .space) warg)
      (by rw [hlen]; omega)
    -- the first argument as written, then the loop over the rest
    refine ⟨t', ?_, ?_⟩
    · rw [appendArgs, harg]
      simp only [if_pos hspace]
      exact ht'
    · rw [htext, hquoted, hline]
      simp

theorem appendArgs_appends {wide : List UInt8 → Option (List WChar)} {args : List (List UInt8)}
    {t' : WText} (hok : appendArgs wide t args = .ok t') : Appends commandLineCap t t' := by
  induction args generalizing t with
  | nil =>
    cases hok
    exact .refl _ _
  | cons arg args ih =>
    rw [appendArgs] at hok
    cases hwide : multiByteToWideChar wide arg with
    | none => simp [hwide] at hok
    | some warg =>
      simp only [hwide] at hok
      exact ((Appends.checked _ t .space).trans (appendQuoted_appends warg)).trans (ih hok)

end Append

/-! ## Reading the buffer -/

theorem wideString_eq {buf : Nat → WChar} {s : List WChar} {i n : Nat} (hNul : 0 ∉ s)
    (hBuf : ∀ j, (h : j < s.length) → buf (i + j) = s[j]) (hEnd : buf (i + s.length) = 0)
    (hRoom : s.length < n) : wideString buf i n = s := by
  induction s generalizing i n with
  | nil =>
    cases n with
    | zero => exact absurd hRoom (Nat.not_lt_zero 0)
    | succ n => simpa [wideString] using hEnd
  | cons c s ih =>
    rw [List.mem_cons, not_or] at hNul
    obtain ⟨hc, hs⟩ := hNul
    cases n with
    | zero => exact absurd hRoom (Nat.not_lt_zero _)
    | succ n =>
      have hhead : buf i = c := hBuf 0 (by simp)
      have htail : ∀ j, (h : j < s.length) → buf (i + 1 + j) = s[j] := by
        intro j hj
        have := hBuf (j + 1) (by simpa using hj)
        rw [Nat.add_assoc, Nat.add_comm 1 j]
        simpa using this
      have hend : buf (i + 1 + s.length) = 0 := by
        rw [Nat.add_assoc, Nat.add_comm 1]
        simpa using hEnd
      rw [wideString, if_neg (by rw [hhead]; exact Ne.symm hc), hhead,
        ih hs htail hend (by simpa using hRoom)]

/-- A text with room for its end and no `NUL` in it is read back. -/
theorem wideString_terminate {t : WText} (hNul : 0 ∉ t.text) (hRoom : t.len < commandLineCap) :
    wideString t.terminate 0 commandLineCap = t.text := by
  have hterminate : t.terminate = Function.update t.buf t.len 0 := by
    rw [WText.terminate, if_pos hRoom]
  rw [hterminate]
  -- the text is untouched by the `NUL` behind it
  apply wideString_eq hNul
  · intro j hj
    rw [WText.length_text] at hj
    rw [Nat.zero_add, Function.update_of_ne (Nat.ne_of_lt hj)]
    simp [WText.text]
  · rw [WText.length_text, Nat.zero_add, Function.update_self]
  · rwa [WText.length_text]

/-! ## The command line -/

/-- The quoted path and the quoted arguments. -/
def commandLine (path : List WChar) (wargs : List (List WChar)) : List WChar :=
  quoted windows path ++ quotedLine windows .space wargs

/-- What `wm_proc_spawn_self` writes to `cmdline` before the final `NUL`. -/
def commandLineText (w : SpawnSystem) (args : List (List UInt8)) : Except WMError WText :=
  appendArgs w.wide (appendQuoted commandLineCap ⟨w.cmdline, 0⟩ (w.moduleFileName.take maxPath))
    args

/-- The command line is what is read of that text, `NUL`-terminated. -/
theorem buildCommandLine_inv {w : SpawnSystem} {args : List (List UInt8)} {line : List WChar}
    (hok : buildCommandLine w args = .ok line) :
    ∃ t, commandLineText w args = .ok t ∧ line = wideString t.terminate 0 commandLineCap := by
  unfold buildCommandLine at hok
  simp only at hok
  split at hok
  · cases hok
  · split at hok
    · cases hok
    · next t ht =>
      cases hok
      exact ⟨t, ht, rfl⟩

theorem commandLineText_appends {w : SpawnSystem} {args : List (List UInt8)} {t : WText}
    (hok : commandLineText w args = .ok t) : Appends commandLineCap ⟨w.cmdline, 0⟩ t :=
  (appendQuoted_appends _).trans (appendArgs_appends hok)

/-- There is always room for the `NUL`. -/
theorem commandLineText_len {w : SpawnSystem} {args : List (List UInt8)} {t : WText}
    (hok : commandLineText w args = .ok t) : t.len < commandLineCap := by
  obtain ⟨cs, -, hlen⟩ := commandLineText_appends hok
  exact hlen (Nat.zero_lt_succ _)

theorem zero_notMem_quoted {s : List WChar} (hNul : 0 ∉ s) : 0 ∉ quoted windows s := by
  have hquote : (0 : WChar) ≠ windows.quote := by decide
  have hbackslash : (0 : WChar) ≠ windows.backslash := by decide
  have hescaped : 0 ∉ escaped windows s := by
    intro h
    obtain ⟨c, hc, hmem⟩ := List.mem_flatMap.mp h
    have hne : 0 ≠ c := fun h => hNul (h ▸ hc)
    -- escaping adds backslashes only
    split at hmem <;> simp [hbackslash, hne] at hmem
  simp [quoted, hquote, hescaped]

/-- The path and the arguments can be read and converted, and fit the buffers. -/
structure SpawnFits (w : SpawnSystem) (args : List (List UInt8)) (wargs : List (List WChar)) :
    Prop where
  path_ne_nil : w.moduleFileName ≠ []
  path_nul : 0 ∉ w.moduleFileName
  path_cap : w.moduleFileName.length < maxPath
  wide : List.Forall₂ (fun arg warg => w.wide arg = some warg) args wargs
  arg_nul : ∀ warg ∈ wargs, 0 ∉ warg
  arg_cap : ∀ warg ∈ wargs, warg.length < argWideCap
  line_cap : (commandLine w.moduleFileName wargs).length < commandLineCap

section Line

variable {w : SpawnSystem} {args : List (List UInt8)} {wargs : List (List WChar)}

theorem SpawnFits.converted (hFits : SpawnFits w args wargs) :
    List.Forall₂ (fun arg warg => multiByteToWideChar w.wide arg = some warg) args wargs := by
  rw [List.forall₂_iff_get]
  obtain ⟨hlen, hget⟩ := List.forall₂_iff_get.mp hFits.wide
  refine ⟨hlen, ?_⟩
  intro i hi hi'
  exact multiByteToWideChar_eq_some (hget i hi hi') (hFits.arg_cap _ (List.get_mem _ _))

/-- With room for it all, what is written is the quoted path and the quoted arguments: each is
the string up to its `NUL`. -/
theorem commandLineText_text (hcap : w.moduleFileName.length < maxPath)
    (hWide : List.Forall₂ (fun arg warg => multiByteToWideChar w.wide arg = some warg) args wargs)
    (hFits : (commandLine (cString w.moduleFileName) (wargs.map cString)).length <
      commandLineCap) :
    ∃ t, commandLineText w args = .ok t ∧
      t.text = commandLine (cString w.moduleFileName) (wargs.map cString) := by
  have hself : w.moduleFileName.take maxPath = w.moduleFileName :=
    List.take_of_length_le (Nat.le_of_lt hcap)
  rw [commandLine, List.length_append] at hFits
  -- the path, and then the arguments
  have hquoted : (appendQuoted commandLineCap ⟨w.cmdline, 0⟩ w.moduleFileName).text =
      quoted windows (cString w.moduleFileName) :=
    appendQuoted_text (t := ⟨w.cmdline, 0⟩)
      (by rw [Nat.zero_add]; exact Nat.lt_of_le_of_lt (Nat.le_add_right _ _) hFits)
  have hquotedLen := congrArg List.length hquoted
  rw [WText.length_text] at hquotedLen
  obtain ⟨t, ht, htext⟩ := appendArgs_text
    (t := appendQuoted commandLineCap ⟨w.cmdline, 0⟩ w.moduleFileName) hWide
    (by rw [hquotedLen]; exact hFits)
  refine ⟨t, by rw [commandLineText, hself, ht], ?_⟩
  rw [htext, hquoted, commandLine]

theorem zero_notMem_commandLine (path : List WChar) (wargs : List (List WChar)) :
    0 ∉ commandLine (cString path) (wargs.map cString) := by
  rw [commandLine, List.mem_append, quotedLine, List.mem_flatMap]
  rintro (h | ⟨warg, hmem, h⟩)
  · exact zero_notMem_quoted zero_notMem_cString h
  · rw [List.mem_cons] at h
    rcases h with h | h
    · exact absurd h (by decide)
    · obtain ⟨s, -, rfl⟩ := List.mem_map.mp hmem
      exact zero_notMem_quoted zero_notMem_cString h

/-- And so is the command line. -/
theorem buildCommandLine_text (hpath : w.moduleFileName ≠ [])
    (hcap : w.moduleFileName.length < maxPath)
    (hWide : List.Forall₂ (fun arg warg => multiByteToWideChar w.wide arg = some warg) args wargs)
    (hFits : (commandLine (cString w.moduleFileName) (wargs.map cString)).length <
      commandLineCap) :
    buildCommandLine w args =
      .ok (commandLine (cString w.moduleFileName) (wargs.map cString)) := by
  obtain ⟨t, ht, htext⟩ := commandLineText_text hcap hWide hFits
  have hself : ¬((w.moduleFileName.take maxPath).length = 0 ∨
      (w.moduleFileName.take maxPath).length ≥ maxPath) := by
    rw [List.take_of_length_le (Nat.le_of_lt hcap), List.length_eq_zero_iff, not_or, Nat.not_le]
    exact ⟨hpath, hcap⟩
  have hNul : 0 ∉ t.text := by
    rw [htext]
    exact zero_notMem_commandLine w.moduleFileName wargs
  rw [commandLineText] at ht
  rw [buildCommandLine, if_neg hself, ht]
  simp only
  rw [wideString_terminate hNul (by rw [← WText.length_text, htext]; exact hFits), htext]

theorem SpawnFits.buildCommandLine_eq (hFits : SpawnFits w args wargs) :
    buildCommandLine w args = .ok (commandLine w.moduleFileName wargs) := by
  have hpath : cString w.moduleFileName = w.moduleFileName := cString_of_notMem hFits.path_nul
  have hargs : wargs.map cString = wargs := by
    rw [List.map_congr_left fun warg hwarg => cString_of_notMem (hFits.arg_nul warg hwarg),
      List.map_id']
  have hbuilt := buildCommandLine_text hFits.path_ne_nil hFits.path_cap hFits.converted
    (by rw [hpath, hargs]; exact hFits.line_cap)
  rwa [hpath, hargs] at hbuilt

end Line

/-- Splitting it gives the path first. -/
theorem argv_commandLine {path : List WChar} (hQuote : .quote ∉ path)
    (wargs : List (List WChar)) :
    argv windows (commandLine path wargs) =
      path :: splitArgs windows (quotedLine windows .space wargs) := by
  have hescaped : escaped windows path = path := escaped_of_notMem hQuote
  have hline : commandLine path wargs = windows.quote :: path ++
      windows.quote :: quotedLine windows .space wargs := by
    simp [commandLine, quoted, hescaped]
  rw [hline, argv_quoted hQuote]

/-- Getting the job creates no process. -/
theorem ensureJob_commandLine (w : SpawnSystem) (j : Job) :
    (ensureJob w j).2.filterMap ProcCall.commandLine = [] := by
  unfold ensureJob
  split
  · rfl
  · split
    · rfl
    · split <;> rfl

/-- One process is created, with the command line built. -/
theorem wmProcSpawnSelf_commandLines {w : SpawnSystem} {args : List (List UInt8)}
    {line : List WChar} (j : Job) (hLine : buildCommandLine w args = .ok line) :
    (wmProcSpawnSelf w j args true).commandLines = [line] := by
  have hjob := ensureJob_commandLine w j
  have hassign : ∀ (job : Option Handle) (process : Handle),
      (job.map fun job => ProcCall.assignToJob job process).toList.filterMap
        ProcCall.commandLine = [] := by
    intro job process
    cases job <;> rfl
  simp only [wmProcSpawnSelf, hLine, Bool.not_true, Bool.false_eq_true, if_false]
  cases hcreate : w.createProcess with
  | none => simp [Spawned.commandLines, hjob, ProcCall.commandLine]
  | some created =>
    obtain ⟨process, thread⟩ := created
    cases hmalloc : w.malloc <;>
      simp [Spawned.commandLines, hjob, hassign, ProcCall.commandLine]

/-- **The worker's arguments.** If it all fits, the worker finds the path and the arguments
given exactly if in none of them a backslash stands before a quote or at the end. -/
theorem spawned_argv_iff {w : SpawnSystem} {args : List (List UInt8)}
    {wargs : List (List WChar)} (j : Job) (hFits : SpawnFits w args wargs)
    (hQuote : .quote ∉ w.moduleFileName) :
    (∃ line, (wmProcSpawnSelf w j args true).commandLines = [line] ∧
        argv windows line = w.moduleFileName :: wargs) ↔
      ∀ warg ∈ wargs, Faithful windows warg := by
  have hlines := wmProcSpawnSelf_commandLines j hFits.buildCommandLine_eq
  have hargs := splitArgs_quoted_iff (a := windows) (by decide : windows.blank .space = true) wargs
  constructor
  · rintro ⟨line, hline, hargv⟩
    obtain rfl : commandLine w.moduleFileName wargs = line := by simpa [hlines] using hline
    rw [argv_commandLine hQuote, List.cons.injEq] at hargv
    exact hargs.mp hargv.2
  · intro h
    exact ⟨_, hlines, by rw [argv_commandLine hQuote, hargs.mpr h]⟩

/-- A system with the executable at `C:\u` that takes bytes for characters. -/
def spawnSystem : SpawnSystem where
  moduleFileName := [67, 58, 92, 117]
  wide arg := some (arg.map fun b => b.toUInt16)
  cmdline _ := 0
  createJob := none
  limitJob := false
  createProcess := some (1, 2)
  malloc := true

/-- With the arguments `a"b` and `c\d`. -/
theorem spawned_argv_iff_escaped :
    (∃ line, (wmProcSpawnSelf spawnSystem .init [[97, 34, 98], [99, 92, 100]] true).commandLines =
          [line] ∧
        argv windows line = [[67, 58, 92, 117], [97, 34, 98], [99, 92, 100]]) ↔
      ∀ warg ∈ ([[97, 34, 98], [99, 92, 100]] : List (List WChar)), Faithful windows warg :=
  spawned_argv_iff .init
    ⟨by decide, by decide, by decide, .cons rfl (.cons rfl .nil), by decide, by decide,
      by decide⟩ (by decide)

/-- With the arguments `a\` and `b` the worker finds one, `a" b`. -/
theorem spawned_argv_swallowed :
    SpawnFits spawnSystem [[97, 92], [98]] [[97, 92], [98]] ∧
      .quote ∉ spawnSystem.moduleFileName ∧
      ∃ line, (wmProcSpawnSelf spawnSystem .init [[97, 92], [98]] true).commandLines = [line] ∧
        argv windows line = [[67, 58, 92, 117], [97, 34, 32, 98]] ∧
        argv windows line ≠ [[67, 58, 92, 117], [97, 92], [98]] := by
  refine ⟨?_, by decide, commandLine [67, 58, 92, 117] [[97, 92], [98]], ?_, by decide,
    by decide⟩
  · exact ⟨by decide, by decide, by decide, .cons rfl (.cons rfl .nil), by decide, by decide,
      by decide⟩
  · decide +kernel

end Uniwm
