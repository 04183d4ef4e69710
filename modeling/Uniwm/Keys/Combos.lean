import Uniwm.Model.Combos

/-!
# uniwm — key combos from text: the grammar

`specKeys` is what a spec is meant to say: cut it at every `+` and look up each piece. The
two scans of `wm_key_combo_from_str` compute just that (`comboFrom_eq`), whatever order its
two refusals come in.
-/

namespace Uniwm

open Base

/-- The key of each piece of a text cut at every `+`. -/
def specKeys (names : KeyNames) (text : List UInt8) : List MCKey :=
  (text.splitOn plusSign).map names.fromStr

/-- `combo` has just these keys, and its unused slots are zero. -/
def KeyCombo.Holds (combo : KeyCombo) (keys : List MCKey) : Prop :=
  combo.count = keys.length ∧ combo.toList = keys ∧
    ∀ i : Fin wmKeyComboMax, combo.count ≤ i → combo.data[i] = 0

section Scan

variable (names : KeyNames) (s : CString)

/-- The keys from `p` on, by the first scan from there. -/
theorem specKeys_span {p : Nat} (hp : p ≤ s.stop) :
    specKeys names (span s.mem p s.stop) =
      names.fromStr (span s.mem p (scanTo s.mem plusSign s.stop p)) ::
        if scanTo s.mem plusSign s.stop p < s.stop then
          specKeys names (span s.mem (scanTo s.mem plusSign s.stop p + 1) s.stop)
        else [] := by
  rw [specKeys, splitOn_span s.mem plusSign s.stop hp]
  split <;> rfl

/-- The loop looks up what is left of the text and adds the keys to those it has. -/
theorem comboFrom_eq {p : Nat} (hp : p ≤ s.stop) (combo : KeyCombo) :
    (comboFrom names s p combo).1 =
      if names.unknown ∈ specKeys names (span s.mem p s.stop) then none
      else combo.pushAll (specKeys names (span s.mem p s.stop)) := by
  fun_induction comboFrom names s p combo with
  | case1 p combo plus key reads hkey =>
    have hmem : names.unknown ∈ specKeys names (span s.mem p s.stop) := by
      rw [specKeys_span names s hp, ← hkey]
      exact List.mem_cons_self
    rw [if_pos hmem]
  | case2 p combo plus key reads hkey hroom combo' hend rest ih =>
    have hkeys : specKeys names (span s.mem p s.stop) =
        key :: specKeys names (span s.mem (plus + 1) s.stop) := by
      rw [specKeys_span names s hp, if_pos hend]
    have hne : names.unknown ≠ key := fun h => hkey h.symm
    rw [hkeys, Slots.pushAll, dif_pos hroom]
    simp only [List.mem_cons, hne, false_or]
    exact ih hend
  | case3 p combo plus key reads hkey hroom combo' hend =>
    have hkeys : specKeys names (span s.mem p s.stop) = [key] := by
      rw [specKeys_span names s hp, if_neg hend]
    have hne : names.unknown ≠ key := fun h => hkey h.symm
    rw [hkeys, Slots.pushAll, dif_pos hroom, if_neg (by simpa using hne)]
    rfl
  | case4 p combo plus key reads hkey hroom =>
    rw [specKeys_span names s hp, Slots.pushAll, dif_neg hroom, ite_self]

/-- The loop looks only at bytes of the string. -/
theorem mem_comboFrom_reads {p a : Nat} (hp : p ≤ s.stop) (combo : KeyCombo)
    (h : a ∈ (comboFrom names s p combo).2) : p ≤ a ∧ a < s.stop := by
  -- one round: the scan, then `mc_key_from_str` on what it passed over
  have hround : ∀ p ≤ s.stop, ∀ a ∈ scanReads s.mem plusSign s.stop p ++
      List.range' p (scanTo s.mem plusSign s.stop p - p), p ≤ a ∧ a < s.stop := by
    intro p hp a ha
    have hle := scanTo_le s.mem plusSign s.stop hp
    have hge := le_scanTo s.mem plusSign s.stop p
    rcases List.mem_append.mp ha with ha | ha
    · exact mem_scanReads s.mem plusSign s.stop ha
    · have := List.mem_range'_1.mp ha
      omega
  fun_induction comboFrom names s p combo with
  | case1 p combo plus key reads hkey => exact hround p hp a h
  | case2 p combo plus key reads hkey hroom combo' hend rest ih =>
    rcases List.mem_append.mp h with h | h
    · exact hround p hp a h
    · have hle : p ≤ plus := le_scanTo s.mem plusSign s.stop p
      obtain ⟨hlo, hhi⟩ := ih hend h
      exact ⟨by omega, hhi⟩
  | case3 p combo plus key reads hkey hroom combo' hend => exact hround p hp a h
  | case4 p combo plus key reads hkey hroom => exact hround p hp a h

end Scan

/-! ## The function as a whole -/

section Parse

variable (names : KeyNames) (s : CString) (out : KeyCombo)

/-- Either every piece is a key and there is room for all of them, or nothing happens. -/
theorem wmKeyComboFromStr_cases :
    (∃ combo, Slots.empty.pushAll (specKeys names s.text) = some combo ∧
      names.unknown ∉ specKeys names s.text ∧
      (wmKeyComboFromStr names (some s) (some out)).error = .ok ∧
      (wmKeyComboFromStr names (some s) (some out)).out = some combo) ∨
    ((specKeys names s.text).length ≤ wmKeyComboMax → names.unknown ∈ specKeys names s.text) ∧
      (wmKeyComboFromStr names (some s) (some out)).error = .invalidArgument ∧
      (wmKeyComboFromStr names (some s) (some out)).out = some out := by
  have hloop := comboFrom_eq names s s.beg_le Slots.empty
  rw [wmKeyComboFromStr]
  rcases hparse : comboFrom names s s.beg Slots.empty with ⟨parsed, reads⟩
  rw [hparse] at hloop
  cases parsed with
  | some combo =>
    refine Or.inl ⟨combo, ?_⟩
    by_cases hunknown : names.unknown ∈ specKeys names s.text
    · rw [CString.text] at hunknown
      rw [if_pos hunknown] at hloop
      cases hloop
    · rw [CString.text] at hunknown ⊢
      rw [if_neg hunknown] at hloop
      exact ⟨hloop.symm, hunknown, rfl, rfl⟩
  | none =>
    refine Or.inr ⟨?_, rfl, rfl⟩
    intro hlen
    by_contra hunknown
    rw [CString.text] at hunknown hlen
    rw [if_neg hunknown] at hloop
    have hsome : (Slots.empty.pushAll (specKeys names (span s.mem s.beg s.stop)) :
        Option KeyCombo).isSome := by
      rw [Slots.pushAll_isSome]
      simpa [Slots.empty] using hlen
    rw [← hloop] at hsome
    exact Bool.noConfusion hsome

theorem unknown_notMem_specKeys {text : List UInt8} :
    names.unknown ∉ specKeys names text ↔
      ∀ piece ∈ text.splitOn plusSign, names.fromStr piece ≠ names.unknown := by
  rw [specKeys, List.mem_map, not_exists]
  simp only [not_and]

theorem holds_of_pushAll {keys : List MCKey} {combo : KeyCombo}
    (h : Slots.empty.pushAll keys = some combo) : combo.Holds keys := by
  have hlist : combo.toList = keys := by
    rw [Slots.toList_pushAll h, Slots.toList_empty, List.nil_append]
  refine ⟨?_, hlist, ?_⟩
  · rw [← Slots.toList_length, hlist]
  · intro i hi
    rw [Slots.data_pushAll h i hi]
    simp [Slots.empty]

theorem wmKeyComboFromStr_ok_iff :
    (wmKeyComboFromStr names (some s) (some out)).error = .ok ↔
      (s.text.splitOn plusSign).length ≤ wmKeyComboMax ∧
        ∀ piece ∈ s.text.splitOn plusSign, names.fromStr piece ≠ names.unknown := by
  rw [← unknown_notMem_specKeys]
  rcases wmKeyComboFromStr_cases names s out with
    ⟨combo, hpush, hknown, herror, -⟩ | ⟨hbad, herror, -⟩
  · have hcount : combo.count = (s.text.splitOn plusSign).length := by
      rw [(holds_of_pushAll hpush).1, specKeys, List.length_map]
    exact iff_of_true herror ⟨hcount ▸ combo.count_le, hknown⟩
  · refine iff_of_false (by rw [herror]; exact nofun) ?_
    rintro ⟨hlen, hknown⟩
    exact hknown (hbad (by rwa [specKeys, List.length_map]))

theorem wmKeyComboFromStr_out
    (h : (wmKeyComboFromStr names (some s) (some out)).error = .ok) :
    ∃ combo : KeyCombo, (wmKeyComboFromStr names (some s) (some out)).out = some combo ∧
      combo.Holds (specKeys names s.text) := by
  rcases wmKeyComboFromStr_cases names s out with
    ⟨combo, hpush, -, -, hout⟩ | ⟨-, hinvalid, -⟩
  · exact ⟨combo, hout, holds_of_pushAll hpush⟩
  · rw [hinvalid] at h
    exact absurd h nofun

theorem wmKeyComboFromStr_fails
    (h : (wmKeyComboFromStr names (some s) (some out)).error ≠ .ok) :
    (wmKeyComboFromStr names (some s) (some out)).error = .invalidArgument ∧
      (wmKeyComboFromStr names (some s) (some out)).out = some out := by
  rcases wmKeyComboFromStr_cases names s out with ⟨_, -, -, herror, -⟩ | ⟨-, herror, hsame⟩
  · exact absurd herror h
  · exact ⟨herror, hsame⟩

theorem wmKeyComboFromStr_reads {a : Nat}
    (h : a ∈ (wmKeyComboFromStr names (some s) (some out)).reads) : s.beg ≤ a ∧ a < s.stop := by
  apply mem_comboFrom_reads names s s.beg_le Slots.empty
  rw [wmKeyComboFromStr] at h
  rcases hparse : comboFrom names s s.beg Slots.empty with ⟨parsed, reads⟩
  rw [hparse] at h
  cases parsed with
  | some combo => exact h
  | none => exact h

end Parse

/-- **A spec is a key combo exactly when it splits at `+` into at most four key names.** -/
theorem wmKeyComboFromStr_splits (names : KeyNames) (s : CString) (out : KeyCombo) :
    let pieces := s.text.splitOn plusSign
    let parse := wmKeyComboFromStr names (some s) (some out)
    (parse.error = .ok ↔ pieces.length ≤ wmKeyComboMax ∧
      ∀ piece ∈ pieces, names.fromStr piece ≠ names.unknown) ∧
    (parse.error = .ok → ∃ combo : KeyCombo, parse.out = some combo ∧
      combo.Holds (pieces.map names.fromStr)) ∧
    (parse.error ≠ .ok → parse.error = .invalidArgument ∧ parse.out = some out) ∧
    (∀ a ∈ parse.reads, s.beg ≤ a ∧ a < s.stop) ∧
    ∀ keys : List (List UInt8), keys ≠ [] → keys.length ≤ wmKeyComboMax →
      (∀ key ∈ keys, plusSign ∉ key ∧ names.fromStr key ≠ names.unknown) →
      s.text = [plusSign].intercalate keys →
      parse.error = .ok ∧ ∃ combo : KeyCombo, parse.out = some combo ∧
        combo.Holds (keys.map names.fromStr) := by
  intro pieces parse
  refine ⟨wmKeyComboFromStr_ok_iff names s out, wmKeyComboFromStr_out names s out,
    wmKeyComboFromStr_fails names s out, ?_, ?_⟩
  · intro a ha
    exact wmKeyComboFromStr_reads names s out ha
  · intro keys hne hlen hkeys htext
    have hpieces : s.text.splitOn plusSign = keys := by
      rw [htext]
      exact List.splitOn_intercalate plusSign (fun key hkey => (hkeys key hkey).1) hne
    have herror : parse.error = .ok := by
      refine (wmKeyComboFromStr_ok_iff names s out).mpr ?_
      rw [hpieces]
      exact ⟨hlen, fun key hkey => (hkeys key hkey).2⟩
    have hout := wmKeyComboFromStr_out names s out herror
    rw [specKeys, hpieces] at hout
    exact ⟨herror, hout⟩

end Uniwm
