import Workload.Lib.Wildcards
import Workload.Model.Pattern
import Mathlib.Tactic.SplitIfs

/-!
# `Correctness.Pattern` — the single pass against the meaning of a pattern

The pass takes no decision back. It sends a star to the first place of the byte written behind it, whether this
byte is a wildcard or not, and to the end of the string when there is no such place. So it depends on the pattern
whether every string gets the right verdict.

* `checkLoop_passes` — what the loop accepts, by the tokens.
* `Settled.passes_iff` — where every star is settled the pass is right.
* `Late.exists_portions`, `settled_of_right` — where it is right every star is settled.
* **`check_pattern_exact`** — the call returns, and every verdict is right exactly when the stars of the pattern are
  settled.
-/

namespace Workload

open Wildcards

/-! ## Meaning -/

/-- What a byte of the pattern stands for, without a backslash in front of it. -/
def token (patternByte : Char) : Token Char :=
  if patternByte = '*' then .star else if patternByte = '?' then .any else .lit patternByte

/-- The byte a token is written with. -/
def tokenByte : Token Char → Char
  | .star => '*'
  | .any => '?'
  | .lit c => c

/-- The tokens of a pattern. A backslash at the end stands for nothing. -/
def tokens : Text → List (Token Char)
  | [] => []
  | [c] => if c = '\\' then [] else [token c]
  | c :: d :: rest => if c = '\\' then .lit d :: tokens rest else token c :: tokens (d :: rest)

/-- The string matches the pattern. -/
def MatchesPattern (isCase : Bool) (offsets : Text × Text) : Prop :=
  Matches (fun c d => sameByte isCase c d = true) (tokens offsets.1) offsets.2

/-- A star with a byte behind it: the token of the byte, the byte, and the rest of the pattern. -/
inductive StarAt : Text → Token Char → Char → Text → Prop
  | escaped (c : Char) (rest : Text) : StarAt ('*' :: '\\' :: c :: rest) (.lit c) c rest
  | plain {c : Char} (rest : Text) (hescape : c ≠ '\\') : StarAt ('*' :: c :: rest) (token c) c rest

section Tokens

theorem tokens_escaped (c : Char) (rest : Text) : tokens ('\\' :: c :: rest) = .lit c :: tokens rest := rfl

theorem tokens_cons {c : Char} (hescape : c ≠ '\\') (rest : Text) :
    tokens (c :: rest) = token c :: tokens rest := by
  cases rest with
  | nil => exact if_neg hescape
  | cons d rest => exact if_neg hescape

theorem token_lit {c : Char} (hstar : c ≠ '*') (hany : c ≠ '?') : token c = .lit c := by
  rw [token, if_neg hstar, if_neg hany]

theorem tokenByte_token (c : Char) : tokenByte (token c) = c := by
  unfold token
  split_ifs with hstar hany
  · exact hstar.symm
  · exact hany.symm
  · rfl

variable {pattern rest : Text} {t : Token Char} {c : Char}

theorem StarAt.tokens_eq (h : StarAt pattern t c rest) : tokens pattern = .star :: t :: tokens rest := by
  have hstar : '*' ≠ '\\' := by decide
  cases h with
  | escaped => rw [tokens_cons hstar, tokens_escaped]; rfl
  | plain _ hescape => rw [tokens_cons hstar, tokens_cons hescape]; rfl

theorem StarAt.length_lt (h : StarAt pattern t c rest) : rest.length < pattern.length := by
  cases h <;> simp only [List.length_cons] <;> omega

theorem StarAt.byte_eq (h : StarAt pattern t c rest) : c = tokenByte t := by
  cases h with
  | escaped => rfl
  | plain => exact (tokenByte_token c).symm

end Tokens

/-! ## One round -/

/-- What a round does, by the tokens in front. -/
inductive RoundCase (isCase : Bool) : Text × Text → Except Int (Text × Text) → Prop
  | stop {pattern string} (htokens : tokens pattern = []) :
      RoundCase isCase (pattern, string) (.error (patternEnd string))
  | short {pattern t ts} (htokens : tokens pattern = t :: ts) (ht : t ≠ .star) :
      RoundCase isCase (pattern, []) (.error (-1))
  | differ {pattern c ts d string} (htokens : tokens pattern = .lit c :: ts)
      (hd : sameByte isCase c d ≠ true) : RoundCase isCase (pattern, d :: string) (.error (-1))
  | pass {pattern t rest d string} (htokens : tokens pattern = t :: tokens rest)
      (ht : t = .any ∨ ∃ c, t = .lit c ∧ sameByte isCase c d = true) (hlt : rest.length < pattern.length) :
      RoundCase isCase (pattern, d :: string) (.ok (rest, string))
  | starEnd {pattern string} (htokens : tokens pattern = [.star]) :
      RoundCase isCase (pattern, string) (.error (patternEnd []))
  | star {pattern t c rest string} (hstar : StarAt pattern t c rest) :
      RoundCase isCase (pattern, string) (.ok (rest, (starLoop isCase c string).tail))

section Round

variable {isCase : Bool} {pattern rest string : Text} {t : Token Char} {c : Char}

theorem checkRound_star (h : StarAt pattern t c rest) (string : Text) :
    checkRound isCase (pattern, string) = .ok (rest, (starLoop isCase c string).tail) := by
  cases h with
  | escaped => rfl
  | plain _ hescape =>
      have hhead : ¬(c :: rest).head? = some '\\' := fun h => hescape (Option.some.inj h)
      unfold checkRound
      dsimp only
      rw [if_pos rfl, if_neg hhead]

/-- A byte in the pattern. -/
theorem roundCase_lit (htokens : tokens pattern = .lit c :: tokens rest) (hlt : rest.length < pattern.length)
    (string : Text) :
    RoundCase isCase (pattern, string)
      (match string with
        | [] => .error (-1)
        | stringByte :: string =>
            if sameByte isCase c stringByte then .ok (rest, string) else .error (-1)) := by
  cases string with
  | nil => exact .short htokens nofun
  | cons d string =>
      dsimp only
      split_ifs with hsame
      · exact .pass htokens (Or.inr ⟨c, rfl, hsame⟩) hlt
      · exact .differ htokens hsame

/-- **One round.** -/
theorem checkRound_case (isCase : Bool) (pattern string : Text) :
    RoundCase isCase (pattern, string) (checkRound isCase (pattern, string)) := by
  cases pattern with
  | nil => exact .stop rfl
  | cons c rest =>
      by_cases hstar : c = '*'
      · subst hstar
        cases rest with
        | nil => exact .starEnd rfl
        | cons c rest =>
            by_cases hescape : c = '\\'
            · subst hescape
              cases rest with
              | nil => exact .starEnd rfl
              | cons c rest =>
                  rw [checkRound_star (.escaped c rest)]
                  exact .star (.escaped c rest)
            · rw [checkRound_star (.plain rest hescape)]
              exact .star (.plain rest hescape)
      · unfold checkRound
        dsimp only
        rw [if_neg hstar]
        by_cases hany : c = '?'
        · subst hany
          have htokens : tokens ('?' :: rest) = .any :: tokens rest := tokens_cons (by decide) rest
          rw [if_pos rfl]
          cases string with
          | nil => exact .short htokens nofun
          | cons d string => exact .pass htokens (Or.inl rfl) (Nat.lt_succ_self _)
        · rw [if_neg hany]
          by_cases hescape : c = '\\'
          · subst hescape
            rw [if_pos rfl]
            cases rest with
            -- a backslash at the end stands for nothing
            | nil => exact .stop rfl
            | cons c rest =>
                exact roundCase_lit (tokens_escaped c rest) (by simp only [List.length_cons]; omega) string
          · have htokens : tokens (c :: rest) = .lit c :: tokens rest := by
              rw [tokens_cons hescape, token_lit hstar hany]
            rw [if_neg hescape]
            exact roundCase_lit htokens (Nat.lt_succ_self _) string

/-- Where a star goes. -/
theorem starLoop_cases (isCase : Bool) (c : Char) (string : Text) :
    ((∀ d ∈ string, ¬ sameByte isCase c d = true) ∧ starLoop isCase c string = []) ∨
      ∃ u d v, string = u ++ d :: v ∧ (∀ e ∈ u, ¬ sameByte isCase c e = true) ∧ sameByte isCase c d = true ∧
        starLoop isCase c string = d :: v := by
  induction string with
  | nil => exact Or.inl ⟨nofun, rfl⟩
  | cons e string ih =>
      rw [starLoop]
      by_cases he : sameByte isCase c e = true
      · rw [if_pos he]
        exact Or.inr ⟨[], e, string, rfl, nofun, he, rfl⟩
      · rw [if_neg he]
        rcases ih with ⟨hall, hloop⟩ | ⟨u, d, v, rfl, hu, hd, hloop⟩
        · exact Or.inl ⟨List.forall_mem_cons.mpr ⟨he, hall⟩, hloop⟩
        · exact Or.inr ⟨e :: u, d, v, rfl, List.forall_mem_cons.mpr ⟨he, hu⟩, hd, hloop⟩

theorem patternEnd_eq_zero : patternEnd string = 0 ↔ string = [] := by
  unfold patternEnd
  split_ifs with h
  · exact iff_of_true rfl h
  · exact iff_of_false (by decide) h

end Round

/-! ## The whole pass -/

/-- What the pass accepts, by the tokens. -/
def Passes (isCase : Bool) : List (Token Char) → Text → Prop
  | [], string => string = []
  | [.star], _ => True
  | .star :: t :: ts, string => Passes isCase ts (starLoop isCase (tokenByte t) string).tail
  | .any :: _, [] => False
  | .any :: ts, _ :: string => Passes isCase ts string
  | .lit _ :: _, [] => False
  | .lit c :: ts, d :: string => sameByte isCase c d = true ∧ Passes isCase ts string

/-- **The loop** ends, and returns 0 for what the pass accepts. -/
theorem checkLoop_passes (isCase : Bool) (fuel : Nat) (pattern string : Text) (hfuel : pattern.length < fuel) :
    ∃ code, checkLoop isCase fuel (pattern, string) = some code ∧
      (code = 0 ↔ Passes isCase (tokens pattern) string) := by
  induction fuel generalizing pattern string with
  | zero => exact absurd hfuel (Nat.not_lt_zero _)
  | succ fuel ih =>
      rw [checkLoop]
      have hround := checkRound_case isCase pattern string
      generalize checkRound isCase (pattern, string) = result at hround ⊢
      cases hround with
      | stop htokens =>
          rw [htokens]
          exact ⟨_, rfl, patternEnd_eq_zero⟩
      | @short _ t ts htokens ht =>
          refine ⟨_, rfl, iff_of_false (by decide) ?_⟩
          rw [htokens]
          cases t with
          | star => exact absurd rfl ht
          | any => exact id
          | lit c => exact id
      | differ htokens hd =>
          refine ⟨_, rfl, iff_of_false (by decide) ?_⟩
          rw [htokens]
          exact fun h => hd h.1
      | @pass _ t rest d string htokens ht hlt =>
          obtain ⟨code, hcode, hverdict⟩ := ih rest string (by omega)
          refine ⟨code, hcode, hverdict.trans ?_⟩
          rw [htokens]
          rcases ht with rfl | ⟨c, rfl, hd⟩
          · exact Iff.rfl
          · exact (and_iff_right hd).symm
      | starEnd htokens =>
          refine ⟨_, rfl, iff_of_true rfl ?_⟩
          rw [htokens]
          trivial
      | @star _ t c rest _ hstar =>
          have hlt := hstar.length_lt
          obtain ⟨code, hcode, hverdict⟩ := ih rest (starLoop isCase c string).tail (by omega)
          refine ⟨code, hcode, hverdict.trans ?_⟩
          rw [hstar.tokens_eq, hstar.byte_eq]
          exact Iff.rfl

/-! ## Settled stars -/

/-- A part of a pattern that ends with a star, where the first place of a byte serves as well as any other. A star
    in front of a star has only stars behind it, and one in front of a literal a `?` further on. -/
inductive Settled : List (Token Char) → Prop
  | last : Settled [.star]
  | pair {ts : List (Token Char)} (hstars : AllStars ts) (h : Settled ts) : Settled (.star :: .star :: ts)
  | lit (c : Char) {ts : List (Token Char)} (hany : .any ∈ ts) (h : Settled ts) : Settled (.star :: .lit c :: ts)
  | any {ts : List (Token Char)} (h : Settled ts) : Settled (.any :: ts)

/-- Every star of the pattern is settled. What stands in front of the first one is free. -/
inductive StarsSettled : List (Token Char) → Prop
  | nil : StarsSettled []
  | front {t : Token Char} {ts : List (Token Char)} (ht : t ≠ .star) (h : StarsSettled ts) : StarsSettled (t :: ts)
  | stars {ts : List (Token Char)} (h : Settled (.star :: ts)) : StarsSettled (.star :: ts)

/-- The pass is right about every string. -/
def Right (isCase : Bool) (ts : List (Token Char)) : Prop :=
  ∀ string, Passes isCase ts string ↔ Matches (fun c d => sameByte isCase c d = true) ts string

section Settled

variable {isCase : Bool} {t : Token Char} {ts : List (Token Char)} {c d : Char} {string v : Text}

/-- What is matched may stand behind anything. -/
theorem Settled.matches_append {same : Char → Char → Prop} (h : Settled ts) (u : Text)
    (hmatch : Matches same ts v) : Matches same ts (u ++ v) := by
  induction h generalizing u v with
  | last => exact matches_star_extend u hmatch
  | pair => exact matches_star_extend u hmatch
  | lit => exact matches_star_extend u hmatch
  | any _ ih =>
      obtain ⟨d, v, rfl, hmatch⟩ := hmatch
      cases u with
      | nil => exact matches_any_cons.mpr hmatch
      | cons e u =>
          rw [List.cons_append, matches_any_cons, List.append_cons]
          exact ih (u ++ [d]) hmatch

theorem Settled.passes_iff (h : Settled ts) : Right isCase ts := by
  induction h with
  | last => exact fun string => iff_of_true trivial (matches_of_allStars (List.forall_mem_nil _) string)
  | @pair ts hstars h ih =>
      intro string
      have hall : AllStars (.star :: ts) := List.forall_mem_cons.mpr ⟨rfl, hstars⟩
      refine iff_of_true ((ih _).mpr ?_) (matches_of_allStars hall string)
      cases h with
      | last => exact matches_of_allStars (List.forall_mem_nil _) _
      | pair => exact matches_of_allStars (fun t ht => hstars t (List.mem_cons_of_mem _ ht)) _
      | lit c => exact nomatch hstars (.lit c) (List.mem_cons_of_mem _ List.mem_cons_self)
      | any => exact nomatch hstars .any List.mem_cons_self
  | @lit c ts hany h ih =>
      intro string
      refine (ih _).trans ?_
      rcases starLoop_cases isCase c string with ⟨habsent, hloop⟩ | ⟨u, d, v, rfl, hu, hd, hloop⟩
      · -- without a place the `?` further on finds the string at its end
        rw [tokenByte, hloop]
        refine iff_of_false (fun hmatch => ?_) (not_matches_of_absent habsent)
        exact nomatch matches_nil_iff.mp hmatch .any hany
      · rw [tokenByte, hloop, matches_skip hu, matches_star_cons, matches_lit_cons]
        refine ⟨fun hmatch => Or.inl ⟨hd, hmatch⟩, ?_⟩
        rintro (⟨-, hmatch⟩ | ⟨w, ⟨u', rfl⟩, e, v, rfl, -, hmatch⟩)
        · exact hmatch
        · -- a later place leaves an end of what the first one leaves
          rw [List.append_cons]
          exact h.matches_append (u' ++ [e]) hmatch
  | any _ ih =>
      intro string
      cases string with
      | nil => exact iff_of_false id not_matches_any_nil
      | cons d string => exact (ih string).trans matches_any_cons.symm

theorem StarsSettled.right (h : StarsSettled ts) : Right isCase ts := by
  induction h with
  | nil => exact fun string => Iff.rfl
  | @front t ts ht _ ih =>
      intro string
      cases t with
      | star => exact absurd rfl ht
      | any =>
          cases string with
          | nil => exact iff_of_false id not_matches_any_nil
          | cons d string => exact (ih string).trans matches_any_cons.symm
      | lit c =>
          cases string with
          | nil => exact iff_of_false id not_matches_lit_nil
          | cons d string =>
              rw [matches_lit_cons, ← ih string]
              exact Iff.rfl
  | stars h => exact h.passes_iff

end Settled

/-! ## Every verdict right -/

/-- A portion of a pattern behind a star: a `?`, or a star with the token behind it. -/
inductive Portion
  | one
  | jump (t : Token Char)

def Portion.tokens : Portion → List (Token Char)
  | one => [.any]
  | jump t => [.star, t]

/-- A byte the pass goes on with. -/
def Portion.byte : Portion → Char
  | one => 'x'
  | jump t => tokenByte t

/-- The tokens of the portions. -/
def spell (portions : List Portion) : List (Token Char) := portions.flatMap Portion.tokens

/-- The portion is a star with a wildcard behind it. -/
def Portion.asksWild : Portion → Bool
  | jump .star => true
  | jump .any => true
  | _ => false

/-- A byte that is a wildcard when no backslash stands in front of it. -/
def isWild (c : Char) : Bool := c.toLower == '*' || c.toLower == '?'

/-- Behind some `y`, a match is never missed. -/
def Late (isCase : Bool) (ts : List (Token Char)) : Prop :=
  ∃ y : Text, ∀ x v, Matches (fun c d => sameByte isCase c d = true) ts v → Passes isCase ts (x ++ (y ++ v))

section Exact

variable {isCase : Bool} {t : Token Char} {ts : List (Token Char)} {portions : List Portion} {c d : Char}
  {string : Text}

theorem sameByte_self (isCase : Bool) (c : Char) : sameByte isCase c c = true := by
  cases isCase <;> exact beq_self_eq_true _

theorem sameByte_toLower (h : sameByte isCase c d = true) : c.toLower = d.toLower := by
  cases isCase with
  | true => exact eq_of_beq h
  | false => exact congrArg Char.toLower (eq_of_beq h)

/-- No byte stands for all. -/
theorem exists_other (isCase : Bool) (c : Char) : ∃ d, ¬ sameByte isCase c d = true := by
  by_contra hnone
  have hall : ∀ d : Char, c.toLower = d.toLower := fun d => sameByte_toLower (not_not.mp (not_exists.mp hnone d))
  exact absurd ((hall 'x').symm.trans (hall 'y')) (by decide)

theorem passes_found (isCase : Bool) (t : Token Char) (ts : List (Token Char)) (string : Text) :
    Passes isCase (.star :: t :: ts) (tokenByte t :: string) ↔ Passes isCase ts string := by
  rw [Passes, starLoop, if_pos (sameByte_self isCase _), List.tail_cons]

/-- Every token has something it stands for. -/
theorem exists_match (isCase : Bool) (t : Token Char) (ts : List (Token Char)) :
    ∃ z, ∀ v, Matches (fun c d => sameByte isCase c d = true) ts v →
      Matches (fun c d => sameByte isCase c d = true) (t :: ts) (z ++ v) := by
  cases t with
  | star => exact ⟨[], fun v hv => matches_star_append [] hv⟩
  | any => exact ⟨['x'], fun v hv => matches_any_cons.mpr hv⟩
  | lit c => exact ⟨[c], fun v hv => matches_lit_cons.mpr ⟨sameByte_self isCase c, hv⟩⟩

/-! ### What misses no match is made of portions -/

theorem late_of_complete (h : ∀ string, Matches (fun c d => sameByte isCase c d = true) (.star :: t :: ts) string →
    Passes isCase (.star :: t :: ts) string) : Late isCase ts := by
  obtain ⟨z, hz⟩ := exists_match isCase t ts
  refine ⟨z, fun x v hv => (passes_found isCase t ts _).mp (h _ ?_)⟩
  exact matches_star_append (tokenByte t :: x) (hz v hv)

theorem not_late_nil : ¬ Late isCase [] := by
  rintro ⟨y, hy⟩
  exact nomatch hy ['x'] [] rfl

theorem not_late_lit : ¬ Late isCase (.lit c :: ts) := by
  rintro ⟨y, hy⟩
  obtain ⟨d, hd⟩ := exists_other isCase c
  exact hd (hy [d] _ (matches_least 'x' (sameByte_self isCase) _)).1

theorem Late.of_any (h : Late isCase (.any :: ts)) : Late isCase ts := by
  obtain ⟨y, hy⟩ := h
  refine ⟨y ++ ['x'], fun x v hv => ?_⟩
  have hpass : Passes isCase ts (x ++ (y ++ 'x' :: v)) := hy ('x' :: x) ('x' :: v) (matches_any_cons.mpr hv)
  rwa [List.append_assoc y]

theorem Late.of_star (h : Late isCase (.star :: t :: ts)) : Late isCase ts := by
  obtain ⟨y, hy⟩ := h
  obtain ⟨z, hz⟩ := exists_match isCase t ts
  refine ⟨y ++ z, fun x v hv => (passes_found isCase t ts _).mp ?_⟩
  rw [List.append_assoc y]
  exact hy (tokenByte t :: x) (z ++ v) (matches_star_append [] (hz v hv))

theorem Late.exists_portions :
    ∀ {ts : List (Token Char)}, Late isCase ts → ∃ portions : List Portion, ts = spell portions ++ [.star]
  | [], h => absurd h not_late_nil
  | .lit _ :: _, h => absurd h not_late_lit
  | .any :: _, h =>
      let ⟨portions, hspell⟩ := h.of_any.exists_portions
      ⟨.one :: portions, congrArg (List.cons Token.any) hspell⟩
  | [.star], _ => ⟨[], rfl⟩
  | .star :: t :: _, h =>
      let ⟨portions, hspell⟩ := h.of_star.exists_portions
      ⟨.jump t :: portions, congrArg (fun ts => Token.star :: t :: ts) hspell⟩

/-! ### What the portions ask for -/

theorem passes_spell (isCase : Bool) (portions : List Portion) (ts : List (Token Char)) (string : Text) :
    Passes isCase (spell portions ++ ts) (portions.map Portion.byte ++ string) ↔ Passes isCase ts string := by
  induction portions with
  | nil => exact Iff.rfl
  | cons portion portions ih =>
      cases portion with
      | one => exact ih
      | jump t => exact (passes_found isCase t _ _).trans ih

theorem passes_nil_of_jumps (h : .one ∉ portions) : Passes isCase (spell portions ++ [.star]) [] := by
  induction portions with
  | nil => trivial
  | cons portion portions ih =>
      cases portion with
      | one => exact absurd List.mem_cons_self h
      | jump t => exact ih (List.not_mem_of_not_mem_cons h)

theorem not_passes_nil (h : .one ∈ portions) : ¬ Passes isCase (spell portions ++ ts) [] := by
  induction portions with
  | nil => exact absurd h List.not_mem_nil
  | cons portion portions ih =>
      cases portion with
      | one => exact id
      | jump t =>
          have hmem : .one ∈ portions := by
            rcases List.mem_cons.mp h with hone | hmem
            · exact nomatch hone
            · exact hmem
          exact ih hmem

/-- A star with something to do behind it has a place. -/
theorem Passes.exists_place (h : Passes isCase (.star :: t :: ts) string) (hnil : ¬ Passes isCase ts []) :
    ∃ u d v, string = u ++ d :: v ∧ sameByte isCase (tokenByte t) d = true ∧ Passes isCase ts v := by
  rw [Passes] at h
  rcases starLoop_cases isCase (tokenByte t) string with ⟨-, hloop⟩ | ⟨u, d, v, hstring, -, hd, hloop⟩
  · rw [hloop] at h
    exact absurd h hnil
  · rw [hloop] at h
    exact ⟨u, d, v, hstring, hd, h⟩

/-- **The pass asks for every wild byte** in front of the last `?`. -/
theorem countP_byte_le (h : Passes isCase (spell (portions ++ [.one]) ++ ts) string) :
    (portions.map Portion.byte).countP isWild ≤ string.dropLast.countP isWild := by
  induction portions generalizing string with
  | nil => exact Nat.zero_le _
  | cons portion portions ih =>
      have hrest : ¬ Passes isCase (spell (portions ++ [.one]) ++ ts) [] :=
        not_passes_nil (List.mem_append_right portions List.mem_cons_self)
      have hne : ∀ {v}, Passes isCase (spell (portions ++ [.one]) ++ ts) v → v ≠ [] := by
        rintro v hv rfl
        exact hrest hv
      cases portion with
      | one =>
          cases string with
          | nil => exact h.elim
          | cons d string =>
              have hpass : Passes isCase (spell (portions ++ [.one]) ++ ts) string := h
              rw [List.dropLast_cons_of_ne_nil (hne hpass), List.countP_cons]
              exact (ih hpass).trans (Nat.le_add_right _ _)
      | jump t =>
          have hpass : Passes isCase (.star :: t :: (spell (portions ++ [.one]) ++ ts)) string := h
          obtain ⟨u, d, v, rfl, hd, hv⟩ := hpass.exists_place hrest
          have hwild : isWild (tokenByte t) = isWild d := by rw [isWild, isWild, sameByte_toLower hd]
          rw [List.dropLast_append_of_ne_nil (List.cons_ne_nil d v), List.dropLast_cons_of_ne_nil (hne hv),
            List.countP_append, List.countP_cons, ← hwild, List.map_cons, List.countP_cons]
          exact (Nat.add_le_add_right (ih hv) _).trans (Nat.le_add_left _ _)

/-- Beyond a shortest match the pass asks for a byte for every wildcard behind a star. -/
theorem countP_least_add (portions : List Portion) :
    (least 'x' (spell portions)).countP isWild + portions.countP Portion.asksWild =
      (portions.map Portion.byte).countP isWild := by
  induction portions with
  | nil => rfl
  | cons portion portions ih =>
      rw [List.map_cons, List.countP_cons, List.countP_cons, ← ih]
      cases portion with
      | one => exact Nat.add_right_comm _ 0 _
      | jump t =>
          cases t with
          | star => exact (Nat.add_assoc _ _ 1).symm
          | any => exact (Nat.add_assoc _ _ 1).symm
          | lit c =>
              rw [show least 'x' (spell (.jump (.lit c) :: portions)) = c :: least 'x' (spell portions) from rfl,
                List.countP_cons]
              exact Nat.add_right_comm _ _ _

theorem length_le_least_add (portions : List Portion) :
    portions.length ≤ (least 'x' (spell portions)).length + portions.countP Portion.asksWild := by
  induction portions with
  | nil => exact Nat.le_refl _
  | cons portion portions ih =>
      rw [List.countP_cons, List.length_cons]
      cases portion with
      | one => exact (Nat.succ_le_succ ih).trans_eq (Nat.succ_add _ _).symm
      | jump t =>
          cases t with
          | star => exact Nat.succ_le_succ ih
          | any => exact Nat.le_succ_of_le ((Nat.succ_le_succ ih).trans_eq (Nat.succ_add _ _).symm)
          | lit c => exact (Nat.succ_le_succ ih).trans_eq (Nat.succ_add _ _).symm

/-! ### What is right is settled -/

theorem spell_append (portions portions' : List Portion) :
    spell (portions ++ portions') = spell portions ++ spell portions' := List.flatMap_append

/-- **Where the pass is right** no wildcard stands behind a star in front of the last `?`, and nothing but stars
    stands behind it. -/
theorem Right.around_last {last : List Portion}
    (h : Right isCase (spell (portions ++ [.one]) ++ (spell last ++ [.star])))
    (hlast : Portion.one ∉ last) : portions.countP Portion.asksWild = 0 ∧ AllStars (spell last ++ [.star]) := by
  have hleast : least 'x' (spell (portions ++ [.one]) ++ (spell last ++ [.star])) =
      least 'x' (spell portions) ++ 'x' :: least 'x' (spell last ++ [.star]) := by
    rw [least_append, spell_append, least_append, List.append_assoc]
    rfl
  -- the bytes asked for pass, so a shortest match is no longer than they are
  have hasked : Passes isCase (spell (portions ++ [.one]) ++ (spell last ++ [.star]))
      ((portions ++ [Portion.one]).map Portion.byte ++ []) :=
    (passes_spell isCase _ _ []).mpr (passes_nil_of_jumps hlast)
  have hlength := length_least_le 'x' ((h _).mp hasked)
  -- a shortest match passes, so it has the wild bytes asked for
  have hcount := countP_byte_le ((h _).mpr (matches_least 'x' (sameByte_self isCase) _))
  rw [hleast] at hlength hcount
  have hstars : AllStars (spell last ++ [.star]) ∨ least 'x' (spell last ++ [.star]) ≠ [] :=
    (eq_or_ne _ []).imp_left allStars_of_least
  generalize least 'x' (spell last ++ [.star]) = behind at hlength hcount hstars
  have hadd := countP_least_add portions
  have hle := length_le_least_add portions
  have hx : isWild 'x' = false := by decide
  simp only [List.length_append, List.length_cons, List.length_map, List.length_nil] at hlength
  cases behind with
  | nil =>
      rw [List.dropLast_concat] at hcount
      exact ⟨by omega, hstars.resolve_right fun h => h rfl⟩
  | cons c behind =>
      rw [List.dropLast_append_of_ne_nil (List.cons_ne_nil _ _),
        List.dropLast_cons_of_ne_nil (List.cons_ne_nil _ _), List.countP_append, List.countP_cons, hx,
        if_neg Bool.false_ne_true] at hcount
      have hbehind : (c :: behind).dropLast.countP isWild ≤ (c :: behind).dropLast.length := List.countP_le_length
      rw [List.length_dropLast] at hbehind
      simp only [List.length_cons] at hbehind hlength
      omega

/-- The last place of an element. -/
theorem exists_last_mem {α : Type*} {a : α} {l : List α} (h : a ∈ l) :
    ∃ front last, l = front ++ [a] ++ last ∧ a ∉ last := by
  obtain ⟨front, last, heq, hfront⟩ := List.eq_append_cons_of_mem (List.mem_reverse.mpr h)
  refine ⟨last.reverse, front.reverse, ?_, fun h => hfront (List.mem_reverse.mp h)⟩
  rw [← List.reverse_reverse l, heq, List.reverse_append, List.reverse_cons]

theorem settled_of_jumps (hjumps : .one ∉ portions) (hstars : AllStars (spell portions ++ [.star])) :
    Settled (spell portions ++ [.star]) := by
  induction portions with
  | nil => exact .last
  | cons portion portions ih =>
      cases portion with
      | one => exact absurd List.mem_cons_self hjumps
      | jump t =>
          obtain rfl : t = .star := hstars t (List.mem_cons_of_mem _ List.mem_cons_self)
          have hrest : AllStars (spell portions ++ [.star]) :=
            fun t ht => hstars t (List.mem_cons_of_mem _ (List.mem_cons_of_mem _ ht))
          exact .pair hrest (ih (List.not_mem_of_not_mem_cons hjumps) hrest)

theorem settled_of_asksNone (hnone : portions.countP Portion.asksWild = 0) (h : Settled ts) :
    Settled (spell (portions ++ [.one]) ++ ts) := by
  induction portions with
  | nil => exact .any h
  | cons portion portions ih =>
      rw [List.countP_eq_zero, List.forall_mem_cons, ← List.countP_eq_zero] at hnone
      cases portion with
      | one => exact .any (ih hnone.2)
      | jump t =>
          have hany : .any ∈ spell (portions ++ [.one]) ++ ts := by
            rw [spell_append, List.append_assoc]
            exact List.mem_append_right _ List.mem_cons_self
          cases t with
          | star => exact absurd rfl hnone.1
          | any => exact absurd rfl hnone.1
          | lit c => exact .lit c hany (ih hnone.2)

theorem settled_of_right (h : Right isCase (.star :: ts)) : Settled (.star :: ts) := by
  cases ts with
  | nil => exact .last
  | cons t ts =>
      obtain ⟨rest, rfl⟩ := (late_of_complete fun string => (h string).mpr).exists_portions
      have hspell : Token.star :: t :: (spell rest ++ [.star]) = spell (.jump t :: rest) ++ [.star] := rfl
      rw [hspell] at h ⊢
      generalize Portion.jump t :: rest = portions at h
      by_cases hone : Portion.one ∈ portions
      · obtain ⟨portions, last, rfl, hlast⟩ := exists_last_mem hone
        rw [spell_append, List.append_assoc] at h ⊢
        obtain ⟨hnone, hstars⟩ := h.around_last hlast
        exact settled_of_asksNone hnone (settled_of_jumps hlast hstars)
      · exact settled_of_jumps hone (matches_nil_iff.mp ((h []).mp (passes_nil_of_jumps hone)))

theorem starsSettled_of_right (h : Right isCase ts) : StarsSettled ts := by
  induction ts with
  | nil => exact .nil
  | cons t ts ih =>
      cases t with
      | star => exact .stars (settled_of_right h)
      | any => exact .front nofun (ih fun string => (h ('x' :: string)).trans matches_any_cons)
      | lit c =>
          refine .front nofun (ih fun string => ?_)
          have hstring := h (c :: string)
          rw [matches_lit_cons] at hstring
          simpa only [Passes, sameByte_self, true_and] using hstring

end Exact

/-- **The stars decide**: the call returns, and it is right about every string exactly when the stars of the pattern
    are settled. -/
theorem check_pattern_exact (isCase : Bool) (pattern : Text) :
    (∀ string, ∃ code, workloadCheckPattern pattern string isCase = some code) ∧
      ((∀ string, workloadCheckPattern pattern string isCase = some 0 ↔ MatchesPattern isCase (pattern, string)) ↔
        StarsSettled (tokens pattern)) := by
  have hcall : ∀ string, ∃ code, workloadCheckPattern pattern string isCase = some code ∧
      (code = 0 ↔ Passes isCase (tokens pattern) string) :=
    fun string => checkLoop_passes isCase (pattern.length + 1) pattern string (Nat.lt_succ_self _)
  have hzero : ∀ string, workloadCheckPattern pattern string isCase = some 0 ↔
      Passes isCase (tokens pattern) string := by
    intro string
    obtain ⟨code, hcode, hverdict⟩ := hcall string
    rw [hcode, Option.some_inj]
    exact hverdict
  refine ⟨fun string => (hcall string).imp fun code h => h.1, ?_, fun h string => ?_⟩
  · exact fun h => starsSettled_of_right fun string => (hzero string).symm.trans (h string)
  · exact (hzero string).trans (h.right string)

/-- **A missed match and a false one**: `*ab` against `aab`, and `*a` against `b`. -/
theorem star_takes_first :
    (workloadCheckPattern "*ab".toList "aab".toList false = some (-1) ∧
      MatchesPattern false ("*ab".toList, "aab".toList)) ∧
    workloadCheckPattern "*a".toList "b".toList false = some 0 ∧
      ¬ MatchesPattern false ("*a".toList, "b".toList) := by
  refine ⟨⟨by decide, ?_⟩, by decide, ?_⟩
  · exact ⟨"ab".toList, by decide, _, _, rfl, by decide, _, _, rfl, by decide, rfl⟩
  · exact not_matches_of_absent (List.forall_mem_singleton.mpr (by decide))

end Workload
