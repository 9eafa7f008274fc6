import Workload.Lib.Grouping
import Workload.Model.Numerals
import Mathlib.Order.Bounds.Basic

/-!
# `Correctness.Numerals` — comma grouping and units

The room for a number is checked with one formula over its whole length, the commas are set one by one over the
digits. The formula takes what is in front of the digits for digits, so it may ask for too much, never for too
little.

* **`comma_string_groups`** — what the grouped text is, and that it fits what was asked for.
* **`printable_least_unit`** — the text with a unit is the one with the smallest unit that fits, except in a buffer
  of size 0: there the room for the unit letter is subtracted from nothing.
-/

namespace Workload

open Grouping

/-! ## Decimals -/

theorem length_formatUnsigned_le {n k : Nat} (hk : 0 < k) : (formatUnsigned n).length ≤ k ↔ n < 10 ^ k :=
  Nat.length_toDigits_le_iff (by decide) hk

theorem isdigit_formatUnsigned {n : Nat} {c : Char} (hc : c ∈ formatUnsigned n) : isdigit c = true :=
  Nat.isDigit_of_mem_toDigits (by decide) (by decide) hc

theorem formatUnsigned_length_pos (n : Nat) : 0 < (formatUnsigned n).length := Nat.length_toDigits_pos

/-! ## Grouping -/

theorem skipNoDigit_eq {lead digits : Text} (hlead : ∀ c ∈ lead, isdigit c = false)
    (hdigits : ∀ c ∈ digits, isdigit c = true) (out : Text) :
    skipNoDigit out (lead ++ digits) = (out ++ lead, digits) := by
  induction lead generalizing out with
  | nil =>
      rw [List.append_nil, List.nil_append]
      cases digits with
      | nil => rfl
      | cons d digits => exact if_pos (hdigits d List.mem_cons_self)
  | cons c lead ih =>
      have hc : isdigit c ≠ true := by
        rw [hlead c List.mem_cons_self]
        exact Bool.false_ne_true
      rw [List.cons_append, skipNoDigit, if_neg hc, ih fun d hd => hlead d (List.mem_cons_of_mem c hd),
        List.append_assoc, List.singleton_append]

/-- The second loop separates groups of three. -/
theorem commaLoop_eq (out digits : Text) : commaLoop out digits = out ++ separate ',' 3 digits := by
  induction digits generalizing out with
  | nil => exact (List.append_nil out).symm
  | cons c rest ih =>
      rw [commaLoop, separate]
      rcases Nat.eq_zero_or_pos rest.length with hzero | hpos
      · -- behind the last digit stands no comma
        obtain rfl := List.eq_nil_of_length_eq_zero hzero
        rfl
      · rw [if_neg (Nat.not_le.mpr hpos)]
        by_cases hthree : rest.length % 3 = 0
        · rw [if_pos hthree, if_pos ⟨List.length_pos_iff.mp hpos, Nat.dvd_of_mod_eq_zero hthree⟩, ih]
          simp
        · rw [if_neg hthree, if_neg fun h => hthree (Nat.mod_eq_zero_of_dvd h.2), ih]
          simp

theorem commaStringPrivate_eq {lead digits : Text} (hlead : ∀ c ∈ lead, isdigit c = false)
    (hdigits : ∀ c ∈ digits, isdigit c = true) :
    workloadCommaStringPrivate (lead ++ digits) = lead ++ separate ',' 3 digits := by
  unfold workloadCommaStringPrivate
  rw [skipNoDigit_eq hlead hdigits, List.nil_append]
  exact commaLoop_eq lead digits

/-- What is asked for covers the text. -/
theorem length_comma_lt {lead digits : Text} :
    (lead ++ separate ',' 3 digits).length + 1 ≤ requireBufferSize (lead ++ digits) := by
  unfold requireBufferSize
  rw [List.length_append, List.length_append, length_separate]
  split_ifs <;> omega

/-- The groups of the digits of a number. -/
structure DigitGroups (digits : Text) (groups : List Text) : Prop where
  flatten : groups.flatten = digits
  head : ∀ g ∈ groups.head?, 1 ≤ g.length ∧ g.length ≤ 3
  tail : ∀ g ∈ groups.tail, g.length = 3

/-- The text of a grouped number: commas stand between the groups and nowhere else. -/
structure CommaText (lead digits text : Text) : Prop where
  filter : text.filter (· != ',') = lead ++ digits
  groups : ∃ gs, DigitGroups digits gs ∧ text = lead ++ [','].intercalate gs
  first : ',' ∉ text.takeWhile fun c => !isdigit c
  last : text.getLast? ≠ some ','

theorem commaText_separate {lead digits : Text} (hlead : ∀ c ∈ lead, isdigit c = false ∧ c ≠ ',')
    (hdigits : ∀ c ∈ digits, isdigit c = true) : CommaText lead digits (lead ++ separate ',' 3 digits) := by
  have hcomma : ',' ∉ digits := fun hmem => absurd (hdigits _ hmem) (by decide)
  have hlead' : ',' ∉ lead := fun hmem => (hlead _ hmem).2 rfl
  constructor
  · rw [List.filter_append, filter_separate hcomma, List.filter_eq_self.mpr]
    exact fun c hc => bne_iff_ne.mpr (hlead c hc).2
  · refine ⟨groups 3 digits, ⟨flatten_groups 3 digits, fun g hg => ?_, fun g hg => ?_⟩, ?_⟩
    · have hlen := length_head (by decide) hg
      omega
    · exact length_of_mem_tail (by decide) hg
    · rw [intercalate_groups]
  · -- the text goes on with a digit behind what stands in front
    have hskip : (lead ++ separate ',' 3 digits).takeWhile (fun c => !isdigit c) = lead := by
      have hfront : ∀ c ∈ lead, (!isdigit c) = true := fun c hc => by rw [(hlead c hc).1]; rfl
      rw [List.takeWhile_append_of_pos hfront]
      cases digits with
      | nil => exact List.append_nil lead
      | cons d digits =>
          obtain ⟨rest, hrest⟩ := List.head?_eq_some_iff.mp (head?_separate ',' 3 (d :: digits))
          have hd : (!isdigit d) ≠ true := by simp [hdigits d List.mem_cons_self]
          rw [hrest, List.takeWhile_cons, if_neg hd, List.append_nil]
    rw [hskip]
    exact hlead'
  · rw [List.getLast?_append, getLast?_separate]
    intro hlast
    rcases Option.or_eq_some_iff.mp hlast with hlast | ⟨-, hlast⟩
    · exact hcomma (List.mem_of_getLast? hlast)
    · exact hlead' (List.mem_of_getLast? hlast)

/-- **Comma grouping.** The call fails exactly when the buffer is smaller than what it asks for; otherwise it
    writes the grouped text, within what it asked for. -/
theorem comma_string_groups {lead digits : Text} (hlead : ∀ c ∈ lead, isdigit c = false ∧ c ≠ ',')
    (hdigits : ∀ c ∈ digits, isdigit c = true) (bufferSize : Nat) :
    (workloadCommaString bufferSize (some (lead ++ digits)) = none ↔
        bufferSize < requireBufferSize (lead ++ digits)) ∧
      bytesWritten (workloadCommaString bufferSize (some (lead ++ digits))) ≤ requireBufferSize (lead ++ digits) ∧
      ∀ text, workloadCommaString bufferSize (some (lead ++ digits)) = some text →
        CommaText lead digits text := by
  have htext := commaStringPrivate_eq (fun c hc => (hlead c hc).1) hdigits
  unfold workloadCommaString
  dsimp only
  by_cases hsize : bufferSize < requireBufferSize (lead ++ digits)
  · rw [if_pos hsize]
    exact ⟨iff_of_true rfl hsize, Nat.zero_le _, nofun⟩
  · rw [if_neg hsize, htext]
    refine ⟨iff_of_false nofun hsize, length_comma_lt, ?_⟩
    intro text heq
    obtain rfl := Option.some.inj heq
    exact commaText_separate hlead hdigits

theorem comma_string_groups_small :
    (workloadCommaString 8 (some ("#".toList ++ "12345".toList)) = none ↔
        8 < requireBufferSize ("#".toList ++ "12345".toList)) ∧
      bytesWritten (workloadCommaString 8 (some ("#".toList ++ "12345".toList))) ≤
        requireBufferSize ("#".toList ++ "12345".toList) ∧
      ∀ text, workloadCommaString 8 (some ("#".toList ++ "12345".toList)) = some text →
        CommaText "#".toList "12345".toList text :=
  comma_string_groups (List.forall_mem_singleton.mpr (by decide)) (List.all_eq_true.mp (by decide)) 8

/-! ## Units -/

/-- The decimal of a number, grouped. -/
def commaDecimal (n : Nat) : Text := separate ',' 3 (formatUnsigned n)

theorem length_commaDecimal (n : Nat) : (commaDecimal n).length + 1 = requireBufferSize (formatUnsigned n) := by
  unfold commaDecimal requireBufferSize
  rw [length_separate, if_pos (formatUnsigned_length_pos n)]

theorem commaString_decimal (bufferSize n : Nat) :
    workloadCommaString bufferSize (some (formatUnsigned n)) =
      if bufferSize < (commaDecimal n).length + 1 then none else some (commaDecimal n) := by
  have htext := @commaStringPrivate_eq [] _ nofun fun c hc => isdigit_formatUnsigned (n := n) hc
  unfold workloadCommaString
  dsimp only
  rw [length_commaDecimal]
  split_ifs
  · rfl
  · exact congrArg some htext

/-- The letter of unit number `k`. -/
def unitLetter : Nat → Text
  | 1 => ['K']
  | 2 => ['M']
  | 3 => ['G']
  | 4 => ['T']
  | 5 => ['P']
  | _ => []

/-- The text of a value with unit number `k`. -/
def unitText (value div k : Nat) : Text := commaDecimal ((· / div)^[k] value) ++ unitLetter k

/-- The unit is one the call may take, and the text fits with its terminator. -/
def UnitFits (bufferSize value div k : Nat) : Prop :=
  k ≤ 5 ∧ (div = 0 → k = 0) ∧ (unitText value div k).length + 1 ≤ bufferSize

/-- The call stays in the buffer, and returns the text with the least unit that fits, if there is one. -/
structure PrintableOk (bufferSize value div : Nat) : Prop where
  bytes : bytesWritten (workloadPrintableCommaString bufferSize value div) ≤ bufferSize
  none_iff : workloadPrintableCommaString bufferSize value div = none ↔ ∀ k, ¬ UnitFits bufferSize value div k
  least : ∀ text, workloadPrintableCommaString bufferSize value div = some text →
    ∃ k, IsLeast {k | UnitFits bufferSize value div k} k ∧ text = unitText value div k

theorem printableRound_eq (bufferSize value : Nat) (unit : Char) :
    printableRound bufferSize unit value =
      if sub64 bufferSize (if unit = '\x00' then 0 else 1) < (commaDecimal value).length + 1 then none
      else some (if unit = '\x00' then commaDecimal value else commaDecimal value ++ [unit]) := by
  unfold printableRound
  rw [commaString_decimal]
  by_cases h : sub64 bufferSize (if unit = '\x00' then 0 else 1) < (commaDecimal value).length + 1
  · rw [if_pos h, if_pos h, Option.map_none]
  · rw [if_neg h, if_neg h, Option.map_some]

/-- The table from unit number `k` on. -/
theorem drop_unitTable {k : Nat} (hk : k ≤ 5) : ∃ unit, unitTable.drop k = unit :: unitTable.drop (k + 1) ∧
    (unit = '\x00' ∧ k = 0 ∧ unitLetter k = [] ∨ unit ≠ '\x00' ∧ unitLetter k = [unit]) := by
  match k, hk with
  | 0, _ => exact ⟨_, rfl, Or.inl ⟨rfl, rfl, rfl⟩⟩
  | 1, _ => exact ⟨_, rfl, Or.inr ⟨by decide, rfl⟩⟩
  | 2, _ => exact ⟨_, rfl, Or.inr ⟨by decide, rfl⟩⟩
  | 3, _ => exact ⟨_, rfl, Or.inr ⟨by decide, rfl⟩⟩
  | 4, _ => exact ⟨_, rfl, Or.inr ⟨by decide, rfl⟩⟩
  | 5, _ => exact ⟨_, rfl, Or.inr ⟨by decide, rfl⟩⟩

/-- One round of the loop: it ends with the unit when its text fits. -/
theorem printableLoop_step {bufferSize div value k : Nat} (hsize : bufferSize < 2 ^ 64)
    (hpos : 0 < bufferSize ∨ k = 0) (hk : k ≤ 5) :
    printableLoop bufferSize div (unitTable.drop k) value =
      (if (commaDecimal value ++ unitLetter k).length + 1 ≤ bufferSize then
          some (commaDecimal value ++ unitLetter k)
        else none).or
        (if div = 0 then none else printableLoop bufferSize div (unitTable.drop (k + 1)) (value / div)) := by
  obtain ⟨unit, hdrop, hunit⟩ := drop_unitTable hk
  rw [hdrop, printableLoop, printableRound_eq]
  rcases hunit with ⟨rfl, -, hletter⟩ | ⟨hunit, hletter⟩
  · have hnul : '\x00' = '\x00' := rfl
    rw [if_pos hnul, if_pos hnul, hletter, List.append_nil, sub64_of_le (Nat.zero_le _) hsize, Nat.sub_zero]
    by_cases hfits : (commaDecimal value).length + 1 ≤ bufferSize
    · rw [if_pos hfits, if_neg (Nat.not_lt.mpr hfits)]
    · rw [if_neg hfits, if_pos (Nat.not_le.mp hfits)]
  · -- a letter takes one byte of the buffer, so there has to be one
    have hroom : 1 ≤ bufferSize := by
      rcases hpos with hpos | rfl
      · exact hpos
      · exact nomatch hletter
    rw [if_neg hunit, if_neg hunit, hletter, List.length_append, List.length_singleton,
      sub64_of_le hroom hsize]
    by_cases hfits : (commaDecimal value).length + 1 + 1 ≤ bufferSize
    · rw [if_pos hfits, if_neg (by omega)]
    · rw [if_neg hfits, if_pos (by omega)]

/-- **The loop** from unit number `k` on: nothing fits, or the first that does ends it. -/
theorem printableLoop_spec {bufferSize value div : Nat} (hsize : bufferSize < 2 ^ 64) (n : Nat) {k : Nat}
    (hk : k + n = 6) (hpos : 0 < bufferSize ∨ div = 0 ∧ k = 0) :
    (printableLoop bufferSize div (unitTable.drop k) ((· / div)^[k] value) = none →
        ∀ j, k ≤ j → j ≤ 5 → (div = 0 → j = k) → ¬ (unitText value div j).length + 1 ≤ bufferSize) ∧
      ∀ text, printableLoop bufferSize div (unitTable.drop k) ((· / div)^[k] value) = some text →
        ∃ j, (k ≤ j ∧ j ≤ 5 ∧ (div = 0 → j = k)) ∧ (unitText value div j).length + 1 ≤ bufferSize ∧
          text = unitText value div j ∧
          ∀ i, k ≤ i → i < j → ¬ (unitText value div i).length + 1 ≤ bufferSize := by
  induction n generalizing k with
  | zero =>
      obtain rfl : k = 6 := by omega
      exact ⟨fun _ j hj hj5 => absurd (hj.trans hj5) (by decide), nofun⟩
  | succ n ih =>
      rw [printableLoop_step hsize (hpos.imp_right And.right) (show k ≤ 5 by omega)]
      by_cases hfits : (commaDecimal ((· / div)^[k] value) ++ unitLetter k).length + 1 ≤ bufferSize
      · rw [if_pos hfits, Option.some_or]
        refine ⟨nofun, fun text htext => ?_⟩
        obtain rfl := Option.some.inj htext
        exact ⟨k, ⟨le_rfl, by omega, fun _ => rfl⟩, hfits, rfl, fun i hi hik => absurd hik (Nat.not_lt.mpr hi)⟩
      · rw [if_neg hfits, Option.none_or]
        by_cases hdiv : div = 0
        · -- the only round
          rw [if_pos hdiv]
          refine ⟨fun _ j _ _ hj => ?_, nofun⟩
          rw [hj hdiv]
          exact hfits
        · rw [if_neg hdiv, ← Function.iterate_succ_apply' (· / div) k value]
          -- this unit does not fit, so the least one is the least of the others
          obtain ⟨hnone, hsome⟩ := ih (k := k + 1) (by omega) (Or.inl (hpos.resolve_right fun h => hdiv h.1))
          have hsplit : ∀ i, k ≤ i → i = k ∨ k + 1 ≤ i := fun i hi => by omega
          constructor
          · intro hres j hj hj5 _
            rcases hsplit j hj with rfl | hj
            · exact hfits
            · exact hnone hres j hj hj5 fun h => absurd h hdiv
          · intro text htext
            obtain ⟨j, ⟨hj, hj5, -⟩, hroom, heq, hleast⟩ := hsome text htext
            refine ⟨j, ⟨by omega, hj5, fun h => absurd h hdiv⟩, hroom, heq, fun i hi hij => ?_⟩
            rcases hsplit i hi with rfl | hi
            · exact hfits
            · exact hleast i hi hij

/-- With room for the letter, or without need for one, the call is right. -/
theorem printable_ok {bufferSize value div : Nat} (hsize : bufferSize < 2 ^ 64)
    (hpos : 0 < bufferSize ∨ div = 0) : PrintableOk bufferSize value div := by
  obtain ⟨hnone, hsome⟩ := @printableLoop_spec _ value _ hsize 6 0 rfl (hpos.imp_right fun h => ⟨h, rfl⟩)
  have hcall : printableLoop bufferSize div (unitTable.drop 0) ((· / div)^[0] value) =
      workloadPrintableCommaString bufferSize value div := rfl
  rw [hcall] at hnone hsome
  cases hresult : workloadPrintableCommaString bufferSize value div with
  | none =>
      refine ⟨hresult ▸ Nat.zero_le _, iff_of_true hresult fun k hk => ?_, fun text h => ?_⟩
      · exact hnone hresult k (Nat.zero_le k) hk.1 hk.2.1 hk.2.2
      · rw [hresult] at h
        exact nomatch h
  | some text =>
      obtain ⟨j, ⟨-, hj5, hj⟩, hroom, rfl, hleast⟩ := hsome text hresult
      have hfits : UnitFits bufferSize value div j := ⟨hj5, hj, hroom⟩
      refine ⟨hresult ▸ hroom, iff_of_false (hresult ▸ nofun) fun h => h j hfits, fun text h => ?_⟩
      obtain rfl := Option.some.inj (hresult.symm.trans h)
      refine ⟨j, ⟨hfits, fun i hi => ?_⟩, rfl⟩
      by_contra hij
      exact hleast i (Nat.zero_le i) (Nat.not_le.mp hij) hi.2.2

/-- In a buffer of size 0 the second round takes the size for `2 ^ 64 - 1`. -/
theorem printable_unbounded {value div : Nat} (hvalue : value < 2 ^ 64) (hdiv : div ≠ 0) :
    workloadPrintableCommaString 0 value div = some (commaDecimal (value / div) ++ ['K']) := by
  have hfirst : printableLoop 0 div (unitTable.drop 0) value = _ :=
    printableLoop_step (by decide) (Or.inr rfl) (by decide)
  have hsecond : printableRound 0 'K' (value / div) = some (commaDecimal (value / div) ++ ['K']) := by
    have hlen : (commaDecimal (value / div)).length + 1 ≤ 2 ^ 64 - 1 := by
      have hdigits : (formatUnsigned (value / div)).length ≤ 20 :=
        (length_formatUnsigned_le (by decide)).mpr ((Nat.div_le_self _ _).trans_lt (by omega))
      unfold commaDecimal
      rw [length_separate]
      omega
    have hunit : 'K' ≠ '\x00' := by decide
    -- the room left for the number, `0 - 1`
    have hwrap : sub64 0 1 = 2 ^ 64 - 1 := rfl
    rw [printableRound_eq, if_neg hunit, if_neg hunit, hwrap]
    exact if_neg (Nat.not_lt.mpr hlen)
  rw [if_neg (Nat.not_le.mpr (Nat.succ_pos _)), if_neg hdiv, Option.none_or] at hfirst
  refine hfirst.trans ?_
  show (printableRound 0 'K' (value / div)).or _ = _
  rw [hsecond, Option.some_or]

/-- **Units.** The call does what it should exactly when the buffer is not empty, or there is no divisor. -/
theorem printable_least_unit {bufferSize value div : Nat} (hsize : bufferSize < 2 ^ 64) (hvalue : value < 2 ^ 64) :
    PrintableOk bufferSize value div ↔ 0 < bufferSize ∨ div = 0 := by
  constructor
  · intro h
    by_contra hneither
    obtain ⟨hzero, hdiv⟩ := not_or.mp hneither
    obtain rfl : bufferSize = 0 := Nat.eq_zero_of_not_pos hzero
    have hbytes := h.bytes
    rw [printable_unbounded hvalue hdiv] at hbytes
    exact absurd hbytes (Nat.not_succ_le_zero _)
  · exact printable_ok hsize

theorem printable_least_unit_small : PrintableOk 7 1234567 1000 ↔ 0 < 7 ∨ 1000 = 0 :=
  printable_least_unit (by decide) (by decide)

/-- **An empty buffer is written to**: `5` does not fit, and `0K` is taken to fit. -/
theorem printable_overruns :
    workloadPrintableCommaString 0 5 1000 = some "0K".toList ∧
      bytesWritten (workloadPrintableCommaString 0 5 1000) = 3 ∧
      ¬ bytesWritten (workloadPrintableCommaString 0 5 1000) ≤ 0 := by
  decide

end Workload
