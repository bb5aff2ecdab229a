import Kanban.Filter.Parser
import Kanban.Proofs.Success

/-!
# Reading before a closing parenthesis

What is read from a text is read in the same way when a closing parenthesis follows the text, or
nothing (`Filter.disjunction_append`).  The reader looks ahead by one mark at most, and no mark
begins inside the text and ends with a parenthesis outside of it.  A greater depth does not change
what is read either.
-/

namespace Kanban

namespace Text

theorem after?_append {token cs rest : List Char} (h : after? token cs = some rest)
    (x : List Char) :
    after? token (cs ++ x) = some (rest ++ x) := by
  induction token generalizing cs with
  | nil =>
    obtain rfl : cs = rest := Option.some.inj h
    rfl
  | cons t ts ih =>
    cases cs with
    | nil => simp [after?] at h
    | cons c cs =>
      unfold after? at h
      split at h
      · rename_i htc
        simpa [after?, htc] using ih h
      · simp at h

end Text

namespace Filter

/-! ### What may follow -/

/-- The text is empty or begins with a closing parenthesis. -/
def Closes (x : List Char) : Prop := x = [] ∨ ∃ y, x = ')' :: y

variable {x : List Char} (hx : Closes x)

section

include hx

theorem after?_append_of_closes {token : List Char} (hnil : token ≠ []) (htoken : ')' ∉ token)
    (cs : List Char) :
    Text.after? token (cs ++ x) = (Text.after? token cs).map (· ++ x) := by
  induction token generalizing cs with
  | nil => exact absurd rfl hnil
  | cons t ts ih =>
    have ht : t ≠ ')' := fun ht => htoken (ht ▸ List.mem_cons_self)
    cases cs with
    | nil =>
      rcases hx with rfl | ⟨y, rfl⟩
      · rfl
      · simp [Text.after?, ht]
    | cons c cs =>
      rw [List.cons_append, Text.after?, Text.after?]
      split
      · by_cases hts : ts = []
        · subst hts
          rfl
        · exact ih hts (fun hmem => htoken (List.mem_cons_of_mem _ hmem)) cs
      · rfl

theorem takeWhile_append {p : Char → Bool} (hp : p ')' = false) (cs : List Char) :
    (cs ++ x).takeWhile p = cs.takeWhile p := by
  induction cs with
  | nil => rcases hx with rfl | ⟨y, rfl⟩ <;> simp [hp]
  | cons c cs ih =>
    rw [List.cons_append, List.takeWhile_cons, List.takeWhile_cons, ih]

theorem dropWhile_append {p : Char → Bool} (hp : p ')' = false) (cs : List Char) :
    (cs ++ x).dropWhile p = cs.dropWhile p ++ x := by
  induction cs with
  | nil => rcases hx with rfl | ⟨y, rfl⟩ <;> simp [hp]
  | cons c cs ih =>
    rw [List.cons_append, List.dropWhile_cons, List.dropWhile_cons]
    split
    · exact ih
    · rfl

theorem trimStart_append (cs : List Char) : Text.trimStart (cs ++ x) = Text.trimStart cs ++ x :=
  dropWhile_append hx (by decide) cs

theorem eat?_append {mark : String} {cs rest : List Char} (h : eat? mark cs = some rest) :
    eat? mark (cs ++ x) = some (rest ++ x) := by
  rw [eat?, trimStart_append hx]
  exact Text.after?_append h x

theorem eat?_append_of_closes {mark : String} (hnil : mark.toList ≠ []) (hmark : ')' ∉ mark.toList)
    (cs : List Char) :
    eat? mark (cs ++ x) = (eat? mark cs).map (· ++ x) := by
  rw [eat?, trimStart_append hx]
  exact after?_append_of_closes hx hnil hmark _

/-! ### Values -/

theorem isSome_after?_append {token : List Char} (hnil : token ≠ [])
    (htoken : token = [')'] ∨ ')' ∉ token) (c : Char) (cs : List Char) :
    (Text.after? token (c :: cs ++ x)).isSome = (Text.after? token (c :: cs)).isSome := by
  rcases htoken with rfl | htoken
  · simp only [List.cons_append, Text.after?]
    split <;> rfl
  · rw [after?_append_of_closes hx hnil htoken]
    cases Text.after? token (c :: cs) <;> rfl

/-- The marks are not blank, a closing parenthesis is one of them, and none of the others contains
one. -/
def Marks (marks : List String) : Prop :=
  ")" ∈ marks ∧ ∀ m ∈ marks, m.toList ≠ [] ∧ (m.toList = [')'] ∨ ')' ∉ m.toList)

omit hx in
theorem marks_valueEnds : Marks valueEnds := by
  unfold Marks valueEnds
  decide

omit hx in
theorem marks_itemEnds : Marks itemEnds := by
  unfold Marks itemEnds
  decide

theorem untilMark_append {marks : List String} (hmarks : Marks marks) (cs : List Char) :
    untilMark marks (cs ++ x) = ((untilMark marks cs).1, (untilMark marks cs).2 ++ x) := by
  induction cs with
  | nil =>
    rcases hx with rfl | ⟨y, rfl⟩
    · rfl
    · have hany : (marks.any fun m => (Text.after? m.toList (')' :: y)).isSome) = true :=
        List.any_eq_true.2 ⟨")", hmarks.1, rfl⟩
      simp [untilMark, hany]
  | cons c cs ih =>
    -- Whether a mark begins here does not depend on what follows the text.
    have hany : (marks.any fun m => (Text.after? m.toList (c :: (cs ++ x))).isSome) =
        marks.any fun m => (Text.after? m.toList (c :: cs)).isSome := by
      rw [Bool.eq_iff_iff, List.any_eq_true, List.any_eq_true]
      refine exists_congr fun m => and_congr_right fun hm => ?_
      obtain ⟨hnil, hmark⟩ := hmarks.2 m hm
      rw [← List.cons_append, isSome_after?_append hx hnil hmark]
    rw [List.cons_append, untilMark, untilMark, hany, ih]
    split <;> rfl

end

theorem untilQuote?_append {quote : Char} {cs front rest : List Char}
    (h : untilQuote? quote cs = some (front, rest)) (x : List Char) :
    untilQuote? quote (cs ++ x) = some (front, rest ++ x) := by
  induction cs generalizing front with
  | nil => simp [untilQuote?] at h
  | cons c cs ih =>
    unfold untilQuote? at h
    rw [List.cons_append, untilQuote?]
    split at h
    · rename_i hc
      obtain ⟨rfl, rfl⟩ := Prod.mk.inj (Option.some.inj h)
      rw [if_pos hc]
    · rename_i hc
      obtain ⟨⟨front', rest'⟩, h', heq⟩ := Option.map_eq_some_iff.1 h
      obtain ⟨rfl, rfl⟩ := Prod.mk.inj heq
      rw [if_neg hc, ih h']
      rfl

/-- The same zone and time, for a text of another length. -/
def Context.Agrees (ctx ctx' : Context) : Prop := ctx'.zone = ctx.zone ∧ ctx'.now = ctx.now

variable {ctx ctx' : Context} (hctx : ctx.Agrees ctx')

include hctx in
theorem scalar?_agrees (kind : Field.Kind) (raw : List Char) :
    scalar? ctx' kind raw = scalar? ctx kind raw := by
  cases kind <;> simp only [scalar?, date?, hctx.1, hctx.2]

section

include hx

theorem token_append {marks : List String} (hmarks : Marks marks) {cs v rest : List Char}
    (h : token ctx marks cs = .ok (v, rest)) : token ctx' marks (cs ++ x) = .ok (v, rest ++ x) := by
  unfold token at h ⊢
  rw [trimStart_append hx]
  cases htrim : Text.trimStart cs with
  | nil => simp [htrim] at h
  | cons c body =>
    simp only [htrim, List.cons_append] at h ⊢
    split at h
    · rename_i hquote
      rw [if_pos hquote]
      split at h
      · rename_i reading hreading
        obtain rfl := Except.ok.inj h
        rw [untilQuote?_append hreading x]
      · simp at h
    · rename_i hquote
      rw [if_neg hquote, ← List.cons_append, untilMark_append hx hmarks]
      split at h
      · simp at h
      · rename_i hvalue
        obtain ⟨rfl, rfl⟩ := Prod.mk.inj (Except.ok.inj h)
        simp only [hvalue, if_false, Bool.false_eq_true]

include hctx

theorem value_append {marks : List String} (hmarks : Marks marks) {f : Field} {cs rest : List Char}
    {v : Scalar} (h : value ctx marks f cs = .ok (v, rest)) :
    value ctx' marks f (cs ++ x) = .ok (v, rest ++ x) := by
  obtain ⟨⟨raw, rest'⟩, htoken, hvalue⟩ := bind_eq_ok.1 h
  refine bind_eq_ok.2 ⟨(raw, rest' ++ x), token_append hx hmarks htoken, ?_⟩
  simp only at hvalue ⊢
  rw [scalar?_agrees hctx]
  split at hvalue
  · obtain ⟨rfl, rfl⟩ := Prod.mk.inj (Except.ok.inj hvalue)
    rfl
  · simp at hvalue

theorem values_append {f : Field} {n m : Nat} (hnm : n ≤ m) {cs rest : List Char} {vs : List Scalar}
    (h : values ctx f n cs = .ok (vs, rest)) : values ctx' f m (cs ++ x) = .ok (vs, rest ++ x) := by
  induction n generalizing m cs vs with
  | zero => simp [values] at h
  | succ n ih =>
    obtain ⟨m, rfl⟩ : ∃ k, m = k + 1 := ⟨m - 1, by omega⟩
    obtain ⟨⟨v, afterValue⟩, hvalue, hmore⟩ := bind_eq_ok.1 h
    refine bind_eq_ok.2 ⟨(v, afterValue ++ x), value_append hx hctx marks_itemEnds hvalue, ?_⟩
    simp only at hmore ⊢
    cases heat : eat? "," afterValue with
    | none =>
      obtain ⟨rfl, rfl⟩ := Prod.mk.inj (Except.ok.inj (by simpa only [heat] using hmore))
      rw [eat?_append_of_closes hx (by decide) (by decide), heat]
      rfl
    | some afterMark =>
      rw [heat] at hmore
      obtain ⟨⟨ws, rest'⟩, hvalues, heq⟩ := bind_eq_ok.1 hmore
      obtain ⟨rfl, rfl⟩ := Prod.mk.inj (Except.ok.inj heq)
      rw [eat?_append hx heat]
      exact bind_eq_ok.2 ⟨(ws, rest' ++ x), ih (by omega) hvalues, rfl⟩

end

/-! ### Conditions -/

theorem symbol?_append (hx : Closes x) (cmps : List Comparator)
    (hcmps : ∀ c ∈ cmps, c.text.toList ≠ [] ∧ ')' ∉ c.text.toList) (cs : List Char) :
    symbol? cmps (cs ++ x) = (symbol? cmps cs).map fun (c, rest) => (c, rest ++ x) := by
  induction cmps with
  | nil => rfl
  | cons d ds ih =>
    obtain ⟨hnil, hmark⟩ := hcmps d (by simp)
    rw [symbol?, symbol?, after?_append_of_closes hx hnil hmark]
    cases Text.after? d.text.toList cs with
    | none => exact ih fun c hc => hcmps c (by simp [hc])
    | some rest => rfl

/-- A word that ends before its text does ends there in a longer text, too. -/
private theorem word_append {p : Char → Bool} {cs : List Char} (h : cs.dropWhile p ≠ [])
    (x : List Char) :
    (cs ++ x).takeWhile p = cs.takeWhile p ∧ (cs ++ x).dropWhile p = cs.dropWhile p ++ x := by
  have hlength : (cs.takeWhile p).length ≠ cs.length := by
    intro hlength
    have hsplit := congrArg List.length (List.takeWhile_append_dropWhile (p := p) (l := cs))
    rw [List.length_append, hlength] at hsplit
    exact h (List.length_eq_zero_iff.1 (by omega))
  rw [List.takeWhile_append, List.dropWhile_append, if_neg hlength, if_neg (by simpa using h)]
  exact ⟨rfl, rfl⟩

/-- A comparator that is a word ends at white space, so something must follow it. -/
theorem comparator_append (hx : Closes x) {cs rest : List Char} {c : Comparator}
    (h : comparator cs = .ok (c, rest)) (hrest : rest ≠ []) :
    comparator (cs ++ x) = .ok (c, rest ++ x) := by
  unfold comparator at h ⊢
  rw [trimStart_append hx]
  generalize Text.trimStart cs = ds at h
  simp only [symbol?_append hx symbols (by decide)] at h ⊢
  cases hsymbol : symbol? symbols ds with
  | some reading =>
    rw [hsymbol] at h
    obtain rfl := Except.ok.inj h
    rfl
  | none =>
    simp only [hsymbol, Option.map_none] at h ⊢
    -- No symbol: the comparator is the word up to the first blank, and that blank is in the text
    -- itself.
    split at h
    · rename_i hlike
      obtain ⟨rfl, rfl⟩ := Prod.mk.inj (Except.ok.inj h)
      obtain ⟨htake, hdrop⟩ := word_append hrest x
      rw [htake, hdrop, if_pos hlike]
    · rename_i hlike
      split at h
      · rename_i hin
        obtain ⟨rfl, rfl⟩ := Prod.mk.inj (Except.ok.inj h)
        obtain ⟨htake, hdrop⟩ := word_append hrest x
        rw [htake, hdrop, if_neg hlike, if_pos hin]
      · simp at h

theorem operand_append (hx : Closes x) (hctx : ctx.Agrees ctx') {f : Field} {c : Comparator}
    {cs rest : List Char} {o : Operand} (h : operand ctx f c cs = .ok (o, rest)) :
    operand ctx' f c (cs ++ x) = .ok (o, rest ++ x) := by
  unfold operand at h ⊢
  split at h
  · rename_i hc
    obtain ⟨⟨vs, rest'⟩, hvalues, heq⟩ := bind_eq_ok.1 h
    obtain ⟨rfl, rfl⟩ := Prod.mk.inj (Except.ok.inj heq)
    rw [if_pos hc]
    exact bind_eq_ok.2 ⟨(vs, rest' ++ x), values_append hx hctx (by simp) hvalues, rfl⟩
  · rename_i hc
    obtain ⟨⟨v, rest'⟩, hvalue, heq⟩ := bind_eq_ok.1 h
    obtain ⟨rfl, rfl⟩ := Prod.mk.inj (Except.ok.inj heq)
    rw [if_neg hc]
    exact bind_eq_ok.2 ⟨(v, rest' ++ x), value_append hx hctx marks_valueEnds hvalue, rfl⟩

/-- At the end of a text there is nothing to compare with. -/
theorem operand_nil (f : Field) (c : Comparator) (r : Operand × List Char) :
    operand ctx f c [] ≠ .ok r := by
  unfold operand
  split
  · rintro ⟨⟩
  · rintro ⟨⟩

theorem condition_append (hx : Closes x) (hctx : ctx.Agrees ctx') {cs rest : List Char} {e : Expr}
    (h : condition ctx cs = .ok (e, rest)) : condition ctx' (cs ++ x) = .ok (e, rest ++ x) := by
  unfold condition at h ⊢
  rw [trimStart_append hx]
  generalize Text.trimStart cs = ds at h
  simp only [takeWhile_append hx (p := isNameChar) (by decide),
    dropWhile_append hx (p := isNameChar) (by decide)] at h ⊢
  split at h
  · simp at h
  · rename_i hname
    rw [if_neg hname]
    split at h
    · simp at h
    · rename_i f hf
      obtain ⟨⟨c, afterComparator⟩, hcomparator, h⟩ := bind_eq_ok.1 h
      simp only at h
      split at h
      · rename_i hsupports
        obtain ⟨⟨o, rest'⟩, hoperand, heq⟩ := bind_eq_ok.1 h
        obtain ⟨rfl, rfl⟩ := Prod.mk.inj (Except.ok.inj heq)
        -- The value stands behind the comparator, so the comparator does not end the text.
        have hne : afterComparator ≠ [] := by
          rintro rfl
          exact operand_nil f c _ hoperand
        refine bind_eq_ok.2 ⟨(c, afterComparator ++ x), comparator_append hx hcomparator hne, ?_⟩
        simp only [if_pos hsupports]
        exact bind_eq_ok.2 ⟨(o, rest' ++ x), operand_append hx hctx hoperand, rfl⟩
      · simp at h

/-! ### Expressions -/

mutual

/-- A disjunction before a closing parenthesis is read as at the end of its text, at any greater
depth. -/
theorem disjunction_append (hx : Closes x) (hctx : ctx.Agrees ctx') {n m : Nat} (hnm : n ≤ m)
    {cs rest : List Char} {e : Expr} (h : disjunction ctx n cs = .ok (e, rest)) :
    disjunction ctx' m (cs ++ x) = .ok (e, rest ++ x) := by
  -- The induction of the whole block is on the smaller depth, along the calls of the reader.
  match n, m, hnm with
  | 0, _, _ => simp [disjunction] at h
  | n + 1, m + 1, hnm =>
    unfold disjunction at h ⊢
    obtain ⟨⟨first, rest'⟩, hfirst, h⟩ := bind_eq_ok.1 h
    obtain ⟨⟨more, rest''⟩, hmore, heq⟩ := bind_eq_ok.1 h
    obtain ⟨rfl, rfl⟩ := Prod.mk.inj (Except.ok.inj heq)
    refine bind_eq_ok.2 ⟨(first, rest' ++ x), conjunction_append hx hctx (by omega) hfirst, ?_⟩
    exact bind_eq_ok.2 ⟨(more, rest'' ++ x), disjuncts_append hx hctx (by omega) hmore, rfl⟩

theorem disjuncts_append (hx : Closes x) (hctx : ctx.Agrees ctx') {n m : Nat} (hnm : n ≤ m)
    {cs rest : List Char} {es : List Expr} (h : disjuncts ctx n cs = .ok (es, rest)) :
    disjuncts ctx' m (cs ++ x) = .ok (es, rest ++ x) := by
  match n, m, hnm with
  | 0, _, _ => simp [disjuncts] at h
  | n + 1, m + 1, hnm =>
    unfold disjuncts at h ⊢
    rw [eat?_append_of_closes hx (by decide) (by decide)]
    cases heat : eat? "||" cs with
    | none =>
      rw [heat] at h
      obtain ⟨rfl, rfl⟩ := Prod.mk.inj (Except.ok.inj h)
      rfl
    | some afterMark =>
      rw [heat] at h
      obtain ⟨⟨e, rest'⟩, hfirst, h⟩ := bind_eq_ok.1 h
      obtain ⟨⟨es', rest''⟩, hmore, heq⟩ := bind_eq_ok.1 h
      obtain ⟨rfl, rfl⟩ := Prod.mk.inj (Except.ok.inj heq)
      refine bind_eq_ok.2 ⟨(e, rest' ++ x), conjunction_append hx hctx (by omega) hfirst, ?_⟩
      exact bind_eq_ok.2 ⟨(es', rest'' ++ x), disjuncts_append hx hctx (by omega) hmore, rfl⟩

theorem conjunction_append (hx : Closes x) (hctx : ctx.Agrees ctx') {n m : Nat} (hnm : n ≤ m)
    {cs rest : List Char} {e : Expr} (h : conjunction ctx n cs = .ok (e, rest)) :
    conjunction ctx' m (cs ++ x) = .ok (e, rest ++ x) := by
  match n, m, hnm with
  | 0, _, _ => simp [conjunction] at h
  | n + 1, m + 1, hnm =>
    unfold conjunction at h ⊢
    obtain ⟨⟨first, rest'⟩, hfirst, h⟩ := bind_eq_ok.1 h
    obtain ⟨⟨more, rest''⟩, hmore, heq⟩ := bind_eq_ok.1 h
    obtain ⟨rfl, rfl⟩ := Prod.mk.inj (Except.ok.inj heq)
    refine bind_eq_ok.2 ⟨(first, rest' ++ x), primary_append hx hctx (by omega) hfirst, ?_⟩
    exact bind_eq_ok.2 ⟨(more, rest'' ++ x), conjuncts_append hx hctx (by omega) hmore, rfl⟩

theorem conjuncts_append (hx : Closes x) (hctx : ctx.Agrees ctx') {n m : Nat} (hnm : n ≤ m)
    {cs rest : List Char} {es : List Expr} (h : conjuncts ctx n cs = .ok (es, rest)) :
    conjuncts ctx' m (cs ++ x) = .ok (es, rest ++ x) := by
  match n, m, hnm with
  | 0, _, _ => simp [conjuncts] at h
  | n + 1, m + 1, hnm =>
    unfold conjuncts at h ⊢
    rw [eat?_append_of_closes hx (by decide) (by decide)]
    cases heat : eat? "&&" cs with
    | none =>
      rw [heat] at h
      obtain ⟨rfl, rfl⟩ := Prod.mk.inj (Except.ok.inj h)
      rfl
    | some afterMark =>
      rw [heat] at h
      obtain ⟨⟨e, rest'⟩, hfirst, h⟩ := bind_eq_ok.1 h
      obtain ⟨⟨es', rest''⟩, hmore, heq⟩ := bind_eq_ok.1 h
      obtain ⟨rfl, rfl⟩ := Prod.mk.inj (Except.ok.inj heq)
      refine bind_eq_ok.2 ⟨(e, rest' ++ x), primary_append hx hctx (by omega) hfirst, ?_⟩
      exact bind_eq_ok.2 ⟨(es', rest'' ++ x), conjuncts_append hx hctx (by omega) hmore, rfl⟩

theorem primary_append (hx : Closes x) (hctx : ctx.Agrees ctx') {n m : Nat} (hnm : n ≤ m)
    {cs rest : List Char} {e : Expr}
    (h : primary ctx n cs = .ok (e, rest)) : primary ctx' m (cs ++ x) = .ok (e, rest ++ x) := by
  match n, m, hnm with
  | 0, _, _ => simp [primary] at h
  | n + 1, m + 1, hnm =>
    unfold primary at h ⊢
    rw [eat?_append_of_closes hx (by decide) (by decide)]
    cases heat : eat? "(" cs with
    | none =>
      rw [heat] at h
      exact condition_append hx hctx h
    | some afterMark =>
      rw [heat] at h
      obtain ⟨⟨e', rest'⟩, hinner, h⟩ := bind_eq_ok.1 h
      refine bind_eq_ok.2 ⟨(e', rest' ++ x), disjunction_append hx hctx (by omega) hinner, ?_⟩
      simp only at h ⊢
      cases hclose : eat? ")" rest' with
      | none => simp [hclose] at h
      | some rest'' =>
        rw [hclose] at h
        obtain ⟨rfl, rfl⟩ := Prod.mk.inj (Except.ok.inj h)
        rw [eat?_append hx hclose]

end

end Filter

end Kanban
