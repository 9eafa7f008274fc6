import Workload.Correctness.Outline
import Workload.Model.Parser

/-!
# `Correctness.Handlers` — every parse is a run of handlers

Whatever bytes the parser gets, it only changes the tags through its handlers, and it pays for them with bytes
(`Handled`): three for a tag that is opened, one for a tag that is closed. So what the handlers keep holds of the tags
of every document, well formed or not.

* `parseMarkup_handled`, `parseLoop_handled` — the step and the run.
* **`parseBytes_handled`** — an arbitrary string of bytes.
-/

namespace Workload

variable {e q t : Char} {k n : Nat} {s s' rest : Text} {root root' r r' : EzxmlRoot} {name : Text}
  {attr attr' : List (Text × Text)}

/-- From `root` the handlers lead to a state, at the price of at most `n` bytes. -/
inductive Handled (root : EzxmlRoot) : Nat → EzxmlRoot → Prop where
  | start (n : Nat) : Handled root n root
  | openTag {n : Nat} {r r' : EzxmlRoot} {name : Text} {attr : List (Text × Text)} (h : Handled root n r)
      (hopen : ezxmlOpenTag r name attr = some r') : Handled root (n + 3) r'
  | closeTag {n : Nat} {r r' : EzxmlRoot} {name : Text} (h : Handled root n r)
      (hclose : ezxmlCloseTag r name = some (.inl r')) : Handled root (n + 1) r'
  | content {n : Nat} {r r' : EzxmlRoot} {s : Text} (h : Handled root n r) (hadd : addContent r s = some r') :
      Handled root n r'
  | other {n : Nat} {r r' : EzxmlRoot} (h : Handled root n r) (hheap : r'.heap = r.heap) (hcur : r'.cur = r.cur) :
      Handled root n r'

namespace Handled

theorem mono {m : Nat} (h : Handled root n r) (hn : n ≤ m) : Handled root m r := by
  induction h generalizing m with
  | start => exact start m
  | openTag _ hopen ih =>
      obtain ⟨m, rfl⟩ := Nat.exists_eq_add_of_le' (Nat.le_of_add_left_le hn)
      exact (ih (by omega)).openTag hopen
  | closeTag _ hclose ih =>
      obtain ⟨m, rfl⟩ := Nat.exists_eq_add_of_le' (Nat.le_of_add_left_le hn)
      exact (ih (by omega)).closeTag hclose
  | content _ hadd ih => exact (ih hn).content hadd
  | other _ hheap hcur ih => exact (ih hn).other hheap hcur

theorem trans {m : Nat} (h : Handled root n r) (h' : Handled r m r') : Handled root (n + m) r' := by
  induction h' with
  | start m => exact h.mono (Nat.le_add_right n m)
  | openTag _ hopen ih => exact ih.openTag hopen
  | closeTag _ hclose ih => exact ih.closeTag hclose
  | content _ hadd ih => exact ih.content hadd
  | other _ hheap hcur ih => exact ih.other hheap hcur

theorem err (root : EzxmlRoot) (n : Nat) (msg : Text) : Handled root n (ezxmlErr root msg) :=
  (start n).other rfl rfl

end Handled

/-! ## What scanners leave -/

theorem length_normalizeLines (s : Text) : (normalizeLines s).length ≤ s.length := by
  fun_induction normalizeLines s with
  | case1 => exact le_rfl
  | case2 s ih =>
      rw [List.length_cons, List.length_cons]
      split at ih
      · exact Nat.succ_le_succ (ih.trans (Nat.le_succ _))
      · exact Nat.succ_le_succ ih
  | case3 c s _ ih =>
      rw [List.length_cons, List.length_cons]
      exact Nat.succ_le_succ ih

theorem length_spill (s rest : Text) : (spill s rest).length ≤ rest.length := by
  unfold spill
  split_ifs
  · exact length_normalizeLines rest
  · exact le_rfl

theorem length_attrValue {text : Text} (h : attrValue q s = some (some (text, rest))) : rest.length < s.length := by
  unfold attrValue at h
  have hdrop := (List.dropWhile_sublist (p := (· != q)) (l := s)).length_le
  cases hquote : s.dropWhile (· != q) with
  | nil =>
      simp only [hquote] at h
      exact nomatch h
  | cons c behind =>
      rw [hquote, List.length_cons] at hdrop
      simp only [hquote, Option.bind_eq_bind] at h
      obtain ⟨text', -, heq⟩ := Option.bind_eq_some_iff.mp h
      obtain ⟨-, rfl⟩ := Prod.mk.inj (Option.some.inj (Option.some.inj heq))
      exact (length_spill _ behind).trans_lt hdrop

/-- The attributes are read from what is there. -/
theorem length_attrLoop (h : attrLoop k attr s = some (.inl (attr', rest))) : rest.length ≤ s.length := by
  have hdrop : ∀ {p : Char → Bool} {s s' : Text} {c : Char}, s.dropWhile p = c :: s' → s'.length < s.length :=
    fun {p s s' c} hd => by
      have hle := (List.dropWhile_sublist (p := p) (l := s)).length_le
      rw [hd] at hle
      exact hle
  have hskip : ∀ s : Text, (s.dropWhile isspace).length ≤ s.length := fun s => (List.dropWhile_sublist _).length_le
  fun_induction attrLoop k attr s with
  | case1 => exact nomatch h
  | case2 =>
      obtain ⟨-, rfl⟩ := Prod.mk.inj (Sum.inl.inj (Option.some.inj h))
      exact le_rfl
  | case3 =>
      obtain ⟨-, rfl⟩ := Prod.mk.inj (Sum.inl.inj (Option.some.inj h))
      exact le_rfl
  | case4 attr fuel c tail _ isEnd hname =>
      simp only [hname] at h
      obtain ⟨-, rfl⟩ := Prod.mk.inj (Sum.inl.inj (Option.some.inj h))
      exact Nat.zero_le _
  | case5 attr fuel c tail _ isEnd head behind hend hequals hname =>
      simp only [hname, if_pos hend, hequals] at h
      obtain ⟨-, rfl⟩ := Prod.mk.inj (Sum.inl.inj (Option.some.inj h))
      exact Nat.zero_le _
  | case6 attr fuel c tail _ isEnd head behind hend q behind' hequals hquote name hname ih =>
      -- behind a value
      simp only [hname, if_pos hend, hequals, if_pos hquote, Option.bind_eq_bind] at h
      obtain ⟨found, hvalue, hgo⟩ := Option.bind_eq_some_iff.mp h
      cases found with
      | none => exact nomatch hgo
      | some found =>
          have hlt := length_attrValue hvalue
          have hname' := hdrop hname
          have hequals' := hdrop hequals
          exact (ih found.1 found.2 hgo).trans ((hskip found.2).trans (by omega))
  | case7 attr fuel c tail _ isEnd head behind hend q behind' hequals hquote name hname ih =>
      simp only [hname, if_pos hend, hequals, if_neg hquote] at h
      have hname' := hdrop hname
      have hequals' := hdrop hequals
      refine (ih h).trans ((hskip _).trans ?_)
      rw [List.length_cons]
      omega
  | case8 attr fuel c tail _ isEnd head behind hend name hname ih =>
      simp only [hname, if_neg hend] at h
      have hname' := hdrop hname
      refine (ih h).trans ((hskip _).trans ?_)
      rw [List.length_cons]
      omega

theorem strstr_append {sub front : Text} (h : strstr s sub = some (front, rest)) : s = front ++ rest := by
  induction s generalizing front with
  | nil =>
      rw [strstr.eq_def] at h
      split_ifs at h
      obtain ⟨rfl, rfl⟩ := Prod.mk.inj (Option.some.inj h)
      rfl
  | cons c s ih =>
      rw [strstr.eq_def] at h
      split_ifs at h
      · obtain ⟨rfl, rfl⟩ := Prod.mk.inj (Option.some.inj h)
        rfl
      · obtain ⟨⟨front', rest'⟩, hfound, heq⟩ := Option.map_eq_some_iff.mp h
        obtain ⟨rfl, rfl⟩ := Prod.mk.inj heq
        rw [ih hfound, List.cons_append]

theorem length_findInstruction {front : Text} (h : findInstruction s = some (front, rest)) :
    rest.length ≤ s.length := by
  fun_induction findInstruction s generalizing front with
  | case1 => exact nomatch h
  | case2 => 
      obtain ⟨-, rfl⟩ := Prod.mk.inj (Option.some.inj h)
      exact Nat.zero_le _
  | case3 s =>
      obtain ⟨-, rfl⟩ := Prod.mk.inj (Option.some.inj h)
      simp
  | case4 c s h1 h2 ih =>
      obtain ⟨⟨front', rest'⟩, hfound, heq⟩ := Option.map_eq_some_iff.mp h
      obtain ⟨-, rfl⟩ := Prod.mk.inj heq
      exact (ih hfound).trans (Nat.le_succ _)

/-! ## One markup -/

/-- What becomes of a markup: an error, or handlers have been called for the bytes that are gone. -/
def Paid (root : EzxmlRoot) (s : Text) : Parsed → Prop
  | .inl root' => ∃ msg, root' = ezxmlErr root msg
  | .inr (root', rest) => ∃ n, Handled root n root' ∧ n + rest.length ≤ s.length + 2

theorem Paid.error {msg : Text} : Paid root s (.inl (ezxmlErr root msg)) := ⟨msg, rfl⟩

/-- A markup that only reads. -/
theorem Paid.same (h : rest.length ≤ s.length) : Paid root s (.inr (root, rest)) :=
  ⟨0, .start 0, by omega⟩

/-- A name starts where the tag does, so there is something behind it to be read. -/
theorem length_behind_name {c : Char} (hc : isTagStart c = true) :
    ((c :: s).dropWhile fun c => !(isXmlWs c || c == '/' || c == '>')).length ≤ s.length := by
  have hname : (!(isXmlWs c || c == '/' || c == '>')) = true := by
    rw [Bool.not_eq_true', ← Bool.not_eq_true]
    intro hend
    simp only [isXmlWs, Bool.or_eq_true, beq_iff_eq, or_assoc] at hend
    rcases hend with rfl | rfl | rfl | rfl | rfl | rfl <;> exact nomatch hc
  rw [List.dropWhile_cons_of_pos (p := fun c => !(isXmlWs c || c == '/' || c == '>')) hname]
  exact (List.dropWhile_sublist _).length_le

theorem ezxmlCloseTag_error (h : ezxmlCloseTag root name = some (.inr r)) : ∃ msg, r = ezxmlErr root msg := by
  unfold ezxmlCloseTag at h
  split at h
  · exact ⟨_, (Sum.inr.inj (Option.some.inj h)).symm⟩
  · obtain ⟨x, -, hgo⟩ := Option.bind_eq_some_iff.mp h
    split_ifs at hgo
    · exact nomatch hgo
    · exact ⟨_, (Sum.inr.inj (Option.some.inj hgo)).symm⟩

theorem parseTag_handled {c : Char} {p : Parsed} (hc : isTagStart c = true) (h : parseTag e root (c :: s) = some p) :
    Paid root (c :: s) p := by
  have hname := length_behind_name (s := s) hc
  unfold parseTag at h
  split_ifs at h with hcur
  · obtain rfl := Option.some.inj h
    exact Paid.error
  · obtain ⟨found, hattr, hgo⟩ := Option.bind_eq_some_iff.mp h
    have hskip : ∀ s : Text, (s.dropWhile isspace).length ≤ s.length := fun s => (List.dropWhile_sublist _).length_le
    split at hgo
    · obtain rfl := Option.some.inj hgo
      exact Paid.error
    · -- an empty tag
      have hrest := (length_attrLoop hattr).trans ((hskip _).trans hname)
      rw [List.length_cons] at hrest
      split_ifs at hgo
      · obtain rfl := Option.some.inj hgo
        exact Paid.error
      · obtain ⟨root₁, hopen, hgo⟩ := Option.bind_eq_some_iff.mp hgo
        obtain ⟨closed, hclose, hgo⟩ := Option.bind_eq_some_iff.mp hgo
        have hhandled := (Handled.start 0).openTag hopen
        rcases closed with closed | closed
        · obtain rfl := Option.some.inj hgo
          exact ⟨4, hhandled.closeTag hclose, by rw [List.length_cons]; omega⟩
        · obtain ⟨msg, rfl⟩ := ezxmlCloseTag_error hclose
          obtain rfl := Option.some.inj hgo
          exact ⟨3, hhandled.other rfl rfl, by rw [List.length_cons]; omega⟩
    · have hrest := (length_attrLoop hattr).trans ((hskip _).trans hname)
      split_ifs at hgo
      · obtain ⟨root₁, hopen, hgo⟩ := Option.bind_eq_some_iff.mp hgo
        obtain rfl := Option.some.inj hgo
        exact ⟨3, (Handled.start 0).openTag hopen, by rw [List.length_cons]; omega⟩
      · obtain rfl := Option.some.inj hgo
        exact Paid.error

theorem parseEnd_handled {p : Parsed} (h : parseEnd e root s = some p) : Paid root ('/' :: s) p := by
  unfold parseEnd at h
  have hdrop : ∀ (p : Char → Bool) (s : Text), (s.dropWhile p).length ≤ s.length := fun p s =>
    (List.dropWhile_sublist p).length_le
  dsimp only at h
  split_ifs at h
  · obtain rfl := Option.some.inj h
    exact Paid.error
  · obtain ⟨closed, hclose, hgo⟩ := Option.bind_eq_some_iff.mp h
    rcases closed with closed | closed
    · obtain rfl := Option.some.inj hgo
      have hrest := (hdrop isXmlWs _).trans (hdrop (fun c => !(isXmlWs c || c == '>')) s)
      exact ⟨1, (Handled.start 0).closeTag hclose, by rw [List.length_cons]; omega⟩
    · obtain ⟨msg, rfl⟩ := ezxmlCloseTag_error hclose
      obtain rfl := Option.some.inj hgo
      exact Paid.error

theorem ezxmlCharContent_handled (h : ezxmlCharContent root s rest t = some (r, s')) :
    Handled root 0 r ∧ s'.length ≤ rest.length := by
  obtain ⟨takes, -, hgo⟩ := Option.bind_eq_some_iff.mp h
  split_ifs at hgo
  · obtain ⟨rfl, rfl⟩ := Prod.mk.inj (Option.some.inj hgo)
    exact ⟨.start 0, le_rfl⟩
  · obtain ⟨text, -, hgo⟩ := Option.bind_eq_some_iff.mp hgo
    obtain ⟨r', hadd, hgo⟩ := Option.bind_eq_some_iff.mp hgo
    obtain ⟨rfl, rfl⟩ := Prod.mk.inj (Option.some.inj hgo)
    exact ⟨(Handled.start 0).content hadd, length_spill s rest⟩

theorem parseComment_handled {p : Parsed} (h : parseComment e root s = some p) : Paid root s p := by
  unfold parseComment at h
  split at h
  · obtain rfl := Option.some.inj h
    exact Paid.error
  · next front found hfound =>
      have hlen := congrArg List.length (strstr_append hfound)
      rw [List.length_append] at hlen
      dsimp only at h
      split_ifs at h
      · obtain rfl := Option.some.inj h
        exact Paid.same (by rw [List.length_drop]; omega)
      · obtain rfl := Option.some.inj h
        exact Paid.error

theorem parseCdata_handled {p : Parsed} (h : parseCdata root s = some p) : Paid root s p := by
  unfold parseCdata at h
  split at h
  · obtain rfl := Option.some.inj h
    exact Paid.error
  · next front found hfound =>
      have hlen := congrArg List.length (strstr_append hfound)
      rw [List.length_append] at hlen
      obtain ⟨⟨r, s'⟩, hchars, hgo⟩ := Option.bind_eq_some_iff.mp h
      obtain rfl := Option.some.inj hgo
      obtain ⟨hhandled, hle⟩ := ezxmlCharContent_handled hchars
      rw [List.length_drop] at hle
      exact ⟨0, hhandled, by omega⟩

theorem parseDoctype_handled {p : Parsed} (h : parseDoctype e root s = some p) : Paid root s p := by
  have hdrop := (List.dropWhile_sublist (p := fun c => c != '[' && c != '>') (l := s)).length_le
  unfold parseDoctype at h
  split at h
  · split_ifs at h
    · obtain rfl := Option.some.inj h
      exact Paid.error
    · obtain rfl := Option.some.inj h
      exact Paid.same (Nat.zero_le _)
  · next behind heq =>
      obtain rfl := Option.some.inj h
      rw [heq] at hdrop
      exact Paid.same hdrop
  · exact nomatch h

theorem parseInstruction_handled {p : Parsed} (h : parseInstruction e root s = some p) : Paid root s p := by
  unfold parseInstruction at h
  split at h
  · split_ifs at h
    · obtain rfl := Option.some.inj h
      exact Paid.error
  · exact nomatch h
  · split at h
    · obtain rfl := Option.some.inj h
      exact Paid.error
    · next text behind hfound =>
        have hle := length_findInstruction hfound
        split_ifs at h
        · obtain rfl := Option.some.inj h
          exact Paid.error
        · obtain ⟨r, hproc, hgo⟩ := Option.bind_eq_some_iff.mp h
          obtain rfl := Option.some.inj hgo
          refine ⟨0, ?_, by omega⟩
          unfold ezxmlProcInst at hproc
          dsimp only at hproc
          split_ifs at hproc
          · obtain rfl := Option.some.inj hproc
            exact .start 0
          · obtain ⟨x, -, hproc⟩ := Option.bind_eq_some_iff.mp hproc
            obtain rfl := Option.some.inj hproc
            exact (Handled.start 0).other rfl rfl

/-- What is read behind the first characters of a markup is paid as well. -/
theorem Paid.of_suffix {p : Parsed} (h : Paid root s' p) (hle : s'.length ≤ s.length) : Paid root s p := by
  rcases p with root' | ⟨root', rest⟩
  · exact h
  · obtain ⟨n, hhandled, hn⟩ := h
    exact ⟨n, hhandled, by omega⟩

theorem parseMarkup_handled {p : Parsed} (h : parseMarkup e root s = some p) : Paid root s p := by
  unfold parseMarkup at h
  split_ifs at h with htag hend hcomment hcdata hdoctype hinstruction
  · cases s with
    | nil => exact nomatch htag
    | cons c s => exact parseTag_handled htag h
  · cases s with
    | nil => exact nomatch hend
    | cons c s =>
        obtain rfl := Option.some.inj hend
        exact parseEnd_handled h
  · exact (parseComment_handled h).of_suffix (by rw [List.length_drop]; omega)
  · exact (parseCdata_handled h).of_suffix (by rw [List.length_drop]; omega)
  · exact parseDoctype_handled h
  · exact (parseInstruction_handled h).of_suffix (by rw [List.length_tail]; omega)
  · obtain rfl := Option.some.inj h
    exact Paid.error

/-! ## The whole document -/

theorem parseFinish_handled (h : parseFinish root = some root') :
    Handled root 0 root' ∧ (root'.err = none → root'.cur = none) := by
  unfold parseFinish at h
  split at h
  · next hcur =>
      obtain rfl := Option.some.inj h
      exact ⟨.start 0, fun _ => hcur⟩
  · obtain ⟨x, -, hgo⟩ := Option.bind_eq_some_iff.mp h
    split at hgo <;>
      · obtain rfl := Option.some.inj hgo
        exact ⟨Handled.err _ _ _, nofun⟩

theorem parseLoop_handled (h : parseLoop e k root s = some root') :
    Handled root (s.length + 2) root' ∧ (root'.err = none → root'.cur = none) := by
  induction k generalizing root s with
  | zero => exact nomatch h
  | succ k ih =>
      obtain ⟨p, hmarkup, hgo⟩ := Option.bind_eq_some_iff.mp h
      have hpaid := parseMarkup_handled hmarkup
      rcases p with root₁ | ⟨root₁, rest⟩
      · obtain ⟨msg, rfl⟩ := hpaid
        obtain rfl := Option.some.inj hgo
        exact ⟨Handled.err _ _ _, nofun⟩
      · obtain ⟨n, hhandled, hn⟩ := hpaid
        dsimp only at hgo
        split at hgo
        · obtain ⟨hfinish, herr⟩ := parseFinish_handled hgo
          exact ⟨(hhandled.trans hfinish).mono (by omega), herr⟩
        · next behind hbehind =>
            -- the text up to the next markup
            obtain ⟨⟨root₂, s₂⟩, hchars, hgo⟩ := Option.bind_eq_some_iff.mp hgo
            obtain ⟨hcontent, hle⟩ := ezxmlCharContent_handled hchars
            have hloop : parseLoop e k root₂ s₂ = some root' := hgo
            obtain ⟨hrest, herr⟩ := ih hloop
            have hdrop := (List.dropWhile_sublist (p := (· != '<')) (l := rest.tail)).length_le
            rw [hbehind, List.length_cons, List.length_tail] at hdrop
            exact ⟨((hhandled.trans hcontent).trans hrest).mono (by omega), herr⟩

/-- **Every parse is a run of handlers**; without an error every tag has been closed. -/
theorem parseBytes_handled {data : Text} (h : parseBytes data = some root) :
    Handled ezxmlNew data.length root ∧ (root.err = none → root.cur = none) := by
  unfold parseBytes at h
  split at h
  · obtain rfl := Option.some.inj h
    exact ⟨Handled.err _ _ _, nofun⟩
  · next e hlast =>
      split at h
      · obtain rfl := Option.some.inj h
        exact ⟨Handled.err _ _ _, nofun⟩
      · next behind hbehind =>
          obtain ⟨hhandled, herr⟩ := parseLoop_handled h
          refine ⟨hhandled.mono ?_, herr⟩
          have hdrop := (List.dropWhile_sublist (p := (· != '<'))
            (l := data.dropLast.takeWhile (· != '\x00'))).length_le
          have htake := (List.takeWhile_sublist (p := (· != '\x00')) (l := data.dropLast)).length_le
          have hpos : data ≠ [] := fun hnil => by simp [hnil] at hlast
          have hlen := List.length_pos_iff.mpr hpos
          rw [hbehind, List.length_cons] at hdrop
          rw [List.length_dropLast] at htake
          omega

end Workload
