import Uniwm.Spawn.Arguments

/-!
# uniwm — the room in the command line's buffer

`append_quoted` advances by one position or by two, under three checks: the quotes ask for one
place more than they take, the loop for two more than the position it stands at, so that a
character, the backslash before it and a quote behind it all fit. Together they keep the last
place free (`Appends`), whatever the string.

`quoting_within`: for every capacity, start and string, what is stored lies between the start
and the last place, and the text is exact where it fits; and `wm_proc_spawn_self` writes the
unbounded concatenation where that has 32767 characters at most, with the `NUL` inside the
buffer in any case.
-/

namespace Uniwm

open Base

/-- From `t` to `t'` characters are stored one behind the other, between the text of `t` and the
last place of a buffer of `cap` characters. -/
structure Within (cap : Nat) (t t' : WText) : Prop where
  stores : ∃ cs, t' = t.puts cs ∧ t.len + cs.length ≤ cap - 1
  outside : ∀ p, p < t.len ∨ cap - 1 ≤ p → t'.buf p = t.buf p
  text : t'.text.take t.len = t.text
  grows : t.len ≤ t'.len
  room : t'.len ≤ cap - 1

theorem Appends.within {cap : Nat} {t t' : WText} (h : Appends cap t t') (hlen : t.len < cap) :
    Within cap t t' := by
  obtain ⟨cs, rfl, hroom⟩ := h
  have hroom := hroom hlen
  rw [WText.puts_len] at hroom
  have hle : t.len + cs.length ≤ cap - 1 := by omega
  refine ⟨⟨cs, rfl, hle⟩, fun p hp => WText.puts_outside cs (by omega), ?_, ?_, ?_⟩
  · rw [WText.text_puts, List.take_left' WText.length_text]
  · rw [WText.puts_len]
    omega
  · rw [WText.puts_len]
    exact hle

/-- **The buffer.** For every capacity, every start in it and every string, `append_quoted`
stores between the start and the last place only, and appends the quoted string where that
fits. A command line that is built was written so: the final `NUL` stands in the buffer, right
behind the text, and the text is the quoted path and the quoted arguments where these have
32767 characters at most. -/
theorem quoting_within :
    (∀ (cap : Nat) (t : WText) (s : List WChar), 1 ≤ cap → t.len ≤ cap - 1 →
      Within cap t (appendQuoted cap t s) ∧
        (t.len + (quoted windows (cString s)).length ≤ cap - 1 →
          (appendQuoted cap t s).text = t.text ++ quoted windows (cString s))) ∧
    ∀ (w : SpawnSystem) (args : List Argument) (line : List WChar),
      buildCommandLine w args = .ok line →
        ∃ t, commandLineText w args = .ok t ∧ Within commandLineCap ⟨w.cmdline, 0⟩ t ∧
          t.terminate = Function.update t.buf t.len 0 ∧ t.len < commandLineCap ∧
          ∀ wargs, List.Forall₂ (fun arg warg => multiByteToWideChar w.wide arg = some warg)
              args wargs →
            (commandLine (cString w.moduleFileName) (wargs.map cString)).length ≤ 32767 →
              t.text = commandLine (cString w.moduleFileName) (wargs.map cString) ∧
                line = commandLine (cString w.moduleFileName) (wargs.map cString) := by
  constructor
  · intro cap t s hcap hlen
    have hroom : t.len < cap := by omega
    refine ⟨(appendQuoted_appends s).within hroom, fun hfits => appendQuoted_text ?_⟩
    omega
  · intro w args line hok
    obtain ⟨t, ht, -⟩ := buildCommandLine_inv hok
    have hlen := commandLineText_len ht
    refine ⟨t, ht, (commandLineText_appends ht).within (Nat.zero_lt_succ _), ?_, hlen, ?_⟩
    · rw [WText.terminate, if_pos hlen]
    · intro wargs hwide hfits
      obtain ⟨⟨hpath, hcap⟩, -⟩ := buildCommandLine_ok_iff.mp ⟨line, hok⟩
      have hfits' : (commandLine (cString w.moduleFileName) (wargs.map cString)).length <
          commandLineCap := Nat.lt_succ_of_le hfits
      obtain ⟨t', ht', htext⟩ := commandLineText_text hcap hwide hfits'
      rw [ht] at ht'
      cases ht'
      refine ⟨htext, ?_⟩
      have hline := buildCommandLine_text hpath hcap hwide hfits'
      rw [hok] at hline
      exact Except.ok.inj hline

/-- Behind a text of two, the string `a"` just fits into eight places; and the command line of a
spawn without arguments. -/
theorem quoting_within_eight :
    (Within 8 ⟨fun _ => 0, 2⟩ (appendQuoted 8 ⟨fun _ => 0, 2⟩ [97, 34]) ∧
      (appendQuoted 8 ⟨fun _ => 0, 2⟩ [97, 34]).text = [0, 0, 34, 97, 92, 34, 34]) ∧
    ∃ t, commandLineText spawnSystem [] = .ok t ∧ t.text = [34, 67, 58, 92, 117, 34] := by
  have hline : buildCommandLine spawnSystem [] = .ok [34, 67, 58, 92, 117, 34] :=
    @buildCommandLine_text spawnSystem [] [] (by decide) (by decide) .nil (by decide)
  obtain ⟨hwithin, htext⟩ := quoting_within.1 8 ⟨fun _ => 0, 2⟩ [97, 34] (by decide) (by decide)
  obtain ⟨t, ht, -, -, -, hexact⟩ := quoting_within.2 spawnSystem [] _ hline
  exact ⟨⟨hwithin, htext (by decide)⟩, t, ht, (hexact [] .nil (by decide)).1⟩

end Uniwm
