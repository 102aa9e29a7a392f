import ExtendedJson.Reader.Value
import ExtendedJson.Proofs.Grammar.Numbers

/-!
# Parts between brackets

`Reads part text means` is what is proved of every reader: what it takes off a text is the text of
some spelling that means the result, and of every such spelling, whatever it is followed by, it takes
just the text. The blanks behind a part are nobody's: the reader of the part leaves them and the loop
around it skips them, while a `Placed` spelling counts them in. Both fields are therefore stated up
to blanks, `afterBlanks` being what is left when they are gone.

The loop of `readParts` is settled here once, for any part that satisfies `Reads`.
-/

namespace ExtendedJson

open Grammar

/-! ## Blanks -/

namespace Grammar

/-- A text without the blanks in front. -/
def afterBlanks (text : List Char) : List Char := text.dropWhile Text.isLayout

theorem isLayout_iff {c : Char} :
    Text.isLayout c = true ↔ c = ' ' ∨ c = '\t' ∨ c = '\n' ∨ c = '\r' := by
  simp [Text.isLayout, or_assoc]

theorem afterBlanks_gap (gap : Gap) (rest : List Char) :
    afterBlanks (gap.text ++ rest) = afterBlanks rest :=
  List.dropWhile_append_of_pos fun c hc => isLayout_iff.mpr (gap.blank c hc)

theorem afterBlanks_gap_self (gap : Gap) : afterBlanks gap.text = [] := by
  rw [← List.append_nil gap.text, afterBlanks_gap]
  rfl

theorem afterBlanks_cons {c : Char} (h : Text.isLayout c = false) (rest : List Char) :
    afterBlanks (c :: rest) = c :: rest := by
  rw [afterBlanks, List.dropWhile_cons_of_neg (by simp [h])]

theorem afterBlanks_idem (text : List Char) : afterBlanks (afterBlanks text) = afterBlanks text := by
  cases h : afterBlanks text with
  | nil => rfl
  | cons c rest =>
      refine afterBlanks_cons ?_ rest
      have hc := List.head?_dropWhile_not Text.isLayout text
      rw [show text.dropWhile Text.isLayout = c :: rest from h] at hc
      simpa using hc

theorem exists_gap (text : List Char) : ∃ gap : Gap, text = gap.text ++ afterBlanks text :=
  ⟨⟨text.takeWhile Text.isLayout, fun _ hc => isLayout_iff.mp (List.mem_takeWhile_imp hc)⟩,
    List.takeWhile_append_dropWhile.symm⟩

/-- Where a part may end, after blanks: at a comma, at a closing bracket, or with the text. -/
def Stops (rest : List Char) : Prop :=
  ∀ c ∈ rest.head?, c = ',' ∨ c = ']' ∨ c = '\x7d'

theorem stops_nil : Stops [] := by
  intro c hc
  simp at hc

theorem stops_cons {c : Char} (h : c = ',' ∨ c = ']' ∨ c = '\x7d') (rest : List Char) :
    Stops (c :: rest) := by
  intro first hfirst
  rw [List.head?_cons, Option.mem_some_iff] at hfirst
  rw [← hfirst]
  exact h

theorem Stops.afterBlanks {rest : List Char} (h : Stops rest) : afterBlanks rest = rest := by
  cases rest with
  | nil => rfl
  | cons c rest =>
      refine afterBlanks_cons ?_ rest
      rcases h c rfl with rfl | rfl | rfl <;> rfl

/-- No number goes on over blanks or past its part. -/
theorem Stops.ended {rest : List Char} (h : Stops rest) (gap : Gap) : Ended (gap.text ++ rest) := by
  intro c hc
  rw [List.head?_append] at hc
  cases hgap : gap.text with
  | nil =>
      rw [hgap] at hc
      rcases h c hc with rfl | rfl | rfl <;> decide
  | cons first tail =>
      rw [hgap] at hc
      have hfirst : first = c := Option.some.inj hc
      rcases gap.blank first (by rw [hgap]; simp) with h | h | h | h <;> rw [← hfirst, h] <;> decide

end Grammar

theorem Cursor.rest_skipLayout (c : Cursor) : c.skipLayout.rest = afterBlanks c.rest := by
  rw [Cursor.skipLayout, Cursor.rest_skip]
  calc c.rest.drop (c.rest.takeWhile Text.isLayout).length
      = (c.rest.takeWhile Text.isLayout ++ c.rest.dropWhile Text.isLayout).drop
          (c.rest.takeWhile Text.isLayout).length := by rw [List.takeWhile_append_dropWhile]
    _ = afterBlanks c.rest := List.drop_left

theorem Cursor.rest_skipLayout_of_gap {c : Cursor} {gap : Gap} {first : Char} {text tail : List Char}
    (hfirst : Text.isLayout first = false) (hc : c.rest = gap.text ++ first :: text ++ tail) :
    c.skipLayout.rest = first :: text ++ tail := by
  rw [Cursor.rest_skipLayout, hc, List.append_assoc, afterBlanks_gap]
  exact afterBlanks_cons hfirst _

/-! ## Parts in brackets -/

/-- A reader takes just the texts of spellings, each as something that it means. -/
structure Reads {α Y : Type} (part : Reader α) (text : Y → List Char) (means : Y → α → Prop) :
    Prop where
  sound : ∀ {c : Cursor} {t : Taken c α}, part c = .ok t →
    ∃ y, c.rest = text y ++ afterBlanks t.after.rest ∧ means y t.value
  complete : ∀ {c : Cursor} {y : Y} {a : α} {rest : List Char}, means y a → Stops rest →
    afterBlanks c.rest = afterBlanks (text y ++ rest) →
      ∃ t : Taken c α, part c = .ok t ∧ t.value = a ∧ afterBlanks t.after.rest = rest

/-- A reader never begins with the closing bracket of the list that its parts stand in. -/
def Rejects {α : Type} (part : Reader α) (closing : Char) : Prop :=
  ∀ (c : Cursor) (t : Taken c α), (afterBlanks c.rest).head? = some closing → part c ≠ .ok t

section Parts

variable {α Y : Type} {part : Reader α} {text : Y → List Char} {means : Y → α → Prop}

theorem readParts_sound (hp : Reads part text means) {brackets : Brackets} {soFar parts : List α}
    {c after : Cursor} (h : readParts part brackets soFar c = .ok (parts, after)) :
    ∃ (ys : List Y) (values : List α), ys ≠ [] ∧
      c.rest = listed (ys.map text) ++ brackets.closing :: after.rest ∧
      List.Forall₂ means ys values ∧ parts = soFar.reverse ++ values := by
  fun_induction readParts part brackets soFar c with
  | case1 | case2 | case5 => simp at h
  | case3 soFar c taken htaken next rest hnext ih =>
      obtain ⟨y, htext, hy⟩ := hp.sound htaken
      obtain ⟨ys, values, hne, hrest, hmeans, hparts⟩ := ih h
      have hcomma : afterBlanks taken.after.rest = ',' :: rest := by
        rw [← Cursor.rest_skipLayout]
        exact hnext
      rw [Cursor.rest_step, show next.rest = ',' :: rest from hnext, List.drop_one,
        List.tail_cons] at hrest
      refine ⟨y :: ys, taken.value :: values, by simp, ?_, .cons hy hmeans, ?_⟩
      · rw [htext, hcomma, hrest, List.map_cons, listed_cons _ (by simpa using hne),
          List.append_assoc, List.cons_append]
      · rw [hparts, List.reverse_cons, List.append_assoc, List.singleton_append]
  | case4 soFar c taken htaken next rest hnext hcomma =>
      obtain ⟨y, htext, hy⟩ := hp.sound htaken
      injection h with h
      injection h with hparts hafter
      have hclosing : afterBlanks taken.after.rest = brackets.closing :: rest := by
        rw [← Cursor.rest_skipLayout]
        exact hnext
      refine ⟨[y], [taken.value], by simp, ?_, .cons hy .nil, ?_⟩
      · rw [htext, hclosing, ← hafter, Cursor.rest_step, show next.rest = _ from hnext]
        rfl
      · rw [← hparts, List.reverse_cons]

/-- Behind a part with a comma the loop goes on with the next part. -/
theorem readParts_of_comma {brackets : Brackets} {c : Cursor} {t : Taken c α} {later : List Char}
    (ht : part c = .ok t) (hcomma : afterBlanks t.after.rest = ',' :: later) (soFar : List α) :
    readParts part brackets soFar c =
        readParts part brackets (t.value :: soFar) t.after.skipLayout.step ∧
      t.after.skipLayout.step.rest = later := by
  have hnext : t.after.skipLayout.rest = ',' :: later := by
    rw [Cursor.rest_skipLayout, hcomma]
  constructor
  · rw [readParts, ht]
    simp only [hnext, if_true]
  · rw [Cursor.rest_step, hnext]
    rfl

theorem readParts_complete (hp : Reads part text means) {brackets : Brackets}
    (hclosing : brackets.closing = ']' ∨ brackets.closing = '\x7d') {rest : List Char} :
    ∀ {ys : List Y} {values : List α}, List.Forall₂ means ys values → ys ≠ [] →
      ∀ (soFar : List α) {c : Cursor},
        afterBlanks c.rest =
          afterBlanks (listed (ys.map text) ++ brackets.closing :: rest) →
        ∃ after, readParts part brackets soFar c = .ok (soFar.reverse ++ values, after) ∧
          after.rest = rest := by
  intro ys values hmeans
  induction hmeans with
  | nil => exact fun hne => absurd rfl hne
  | @cons y value ys values hy hmeans ih =>
      intro _ soFar c hc
      cases ys with
      | nil =>
          cases hmeans
          obtain ⟨t, ht, rfl, hrest⟩ := hp.complete hy
            (stops_cons (Or.inr hclosing) rest) hc
          have hnext : t.after.skipLayout.rest = brackets.closing :: rest := by
            rw [Cursor.rest_skipLayout, hrest]
          have hcomma : brackets.closing ≠ ',' := by
            rcases hclosing with h | h <;> rw [h] <;> decide
          rw [readParts, ht]
          simp only [hnext]
          rw [if_neg hcomma, if_true]
          refine ⟨_, by rw [List.reverse_cons], ?_⟩
          rw [Cursor.rest_step, hnext]
          rfl
      | cons second ys =>
          rw [List.map_cons, listed_cons _ (by simp), List.append_assoc, List.cons_append] at hc
          obtain ⟨t, ht, rfl, hrest⟩ := hp.complete hy (stops_cons (Or.inl rfl) _) hc
          obtain ⟨hgo, hlater⟩ := readParts_of_comma ht hrest soFar
          obtain ⟨after, hafter, hbehind⟩ := ih (by simp) (t.value :: soFar)
            (c := t.after.skipLayout.step) (by rw [hlater])
          rw [hgo, hafter]
          refine ⟨after, ?_, hbehind⟩
          rw [List.reverse_cons, List.append_assoc, List.singleton_append]

theorem readBracketed_sound (hp : Reads part text means) {brackets : Brackets} {parts : List α}
    {c after : Cursor} (h : readBracketed part brackets c = .ok (parts, after)) :
    ∃ (gap : Gap) (ys : List Y),
      c.step.rest = gap.text ++ (listed (ys.map text) ++ brackets.closing :: after.rest) ∧
      List.Forall₂ means ys parts := by
  obtain ⟨gap, hgap⟩ := exists_gap c.step.rest
  rw [← Cursor.rest_skipLayout] at hgap
  unfold readBracketed at h
  simp only at h
  split at h
  · next hhead =>
      injection h with h
      injection h with hparts hafter
      obtain ⟨tail, htail⟩ := List.head?_eq_some_iff.mp hhead
      refine ⟨gap, [], ?_, hparts ▸ .nil⟩
      rw [hgap, ← hafter, Cursor.rest_step, htail]
      rfl
  · split at h
    · simp at h
    · next hread =>
        injection h with h
        rw [h] at hread
        obtain ⟨ys, values, -, hrest, hmeans, hparts⟩ := readParts_sound hp hread
        refine ⟨gap, ys, by rw [hgap, hrest], ?_⟩
        rw [show parts = values from hparts]
        exact hmeans

theorem readBracketed_complete (hp : Reads part text means) (brackets : Brackets)
    (hreject : Rejects part brackets.closing)
    (hclosing : brackets.closing = ']' ∨ brackets.closing = '\x7d') (gap : Gap) {ys : List Y}
    {values : List α} (hmeans : List.Forall₂ means ys values) {c : Cursor} {rest : List Char}
    (hc : c.step.rest = gap.text ++ (listed (ys.map text) ++ brackets.closing :: rest)) :
    ∃ after, readBracketed part brackets c = .ok (values, after) ∧ after.rest = rest := by
  have hfirst : c.step.skipLayout.rest =
      afterBlanks (listed (ys.map text) ++ brackets.closing :: rest) := by
    rw [Cursor.rest_skipLayout, hc, afterBlanks_gap]
  rw [readBracketed]
  cases ys with
  | nil =>
      cases hmeans
      have hstop : Stops (brackets.closing :: rest) := stops_cons (Or.inr hclosing) rest
      rw [List.map_nil, listed, List.nil_append, hstop.afterBlanks] at hfirst
      rw [if_pos (by rw [hfirst]; rfl)]
      refine ⟨_, rfl, ?_⟩
      rw [Cursor.rest_step, hfirst]
      rfl
  | cons y ys =>
      obtain ⟨after, hafter, hbehind⟩ := readParts_complete hp hclosing hmeans (by simp)
        [] (c := c.step.skipLayout) (by rw [hfirst, afterBlanks_idem])
      have hhead : c.step.skipLayout.rest.head? ≠ some brackets.closing := by
        intro hhead
        rw [readParts] at hafter
        split at hafter
        · simp at hafter
        · next t ht =>
            refine hreject _ t ?_ ht
            rw [Cursor.rest_skipLayout, afterBlanks_idem, ← Cursor.rest_skipLayout]
            exact hhead
      rw [if_neg hhead, hafter]
      exact ⟨after, rfl, hbehind⟩

end Parts

end ExtendedJson
