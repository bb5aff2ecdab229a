import Kanban.Calendar.ZoneTable
import Kanban.Proofs.Filter.Scoped
import Kanban.Proofs.Filter.Words

/-!
# Reading what was written

A well-formed expression over integers, truth values and texts can be written, and each text that it
can be written as reads as this expression again (`Filter.parse_written`).  A value without quotes
ends where white space and a mark, a parenthesis or a comma follow it, so what is left behind a
value, a condition or a part of a group is known up to the white space in front of it; the next
thing to be read skips this white space anyway.
-/

namespace Kanban.Filter

/-! ### White space -/

theorem eat?_congr (mark : String) {cs cs' : List Char}
    (h : Text.trimStart cs = Text.trimStart cs') :
    eat? mark cs = eat? mark cs' := by
  rw [eat?, eat?, h]

/-- White space behind a text that has none is trimmed. -/
theorem trimEnd_blanks {w b : List Char} (hw : ∀ c ∈ w, Text.isBlank c = false) (hb : Blanks b) :
    Text.trimEnd (w ++ b) = w := by
  rw [Text.trimEnd, List.reverse_append, trimStart_blanks fun c hc => hb c (List.mem_reverse.1 hc)]
  exact trimEnd_eq_self hw

/-! ### Values -/

/-- The characters that end a value begin the marks behind it. -/
def markChars : List Char := ['&', '|', ')', ',']

/-- The text is empty or begins with one of the marks. -/
def Stops (marks : List String) (cs : List Char) : Prop :=
  cs = [] ∨ ∃ m ∈ marks, (Text.after? m.toList cs).isSome = true

/-- A character of a value that needs no quotes. -/
def IsPlain (c : Char) : Prop := Text.isBlank c = false ∧ c ∉ markChars ∧ c ≠ '"' ∧ c ≠ '\''

instance (c : Char) : Decidable (IsPlain c) := inferInstanceAs (Decidable (_ ∧ _))

theorem valueEnds_subset : valueEnds ⊆ itemEnds := List.subset_cons_self _ _

theorem Stops.itemEnds {cs : List Char} (h : Stops valueEnds cs) : Stops itemEnds cs := by
  exact h.imp_right fun ⟨m, hm, hcs⟩ => ⟨m, valueEnds_subset hm, hcs⟩

theorem head_mem_markChars {marks : List String} (hmarks : marks ⊆ itemEnds) {m : String}
    (hm : m ∈ marks) :
    ∃ d ds, m.toList = d :: ds ∧ d ∈ markChars := by
  have hends := hmarks hm
  simp only [itemEnds, List.mem_cons, List.not_mem_nil, or_false] at hends
  rcases hends with rfl | rfl | rfl | rfl
  · exact ⟨',', [], rfl, by decide⟩
  · exact ⟨'&', ['&'], rfl, by decide⟩
  · exact ⟨'|', ['|'], rfl, by decide⟩
  · exact ⟨')', [], rfl, by decide⟩

/-- A text in which no mark begins is read up to the mark behind it. -/
theorem untilMark_stops {marks : List String} (hmarks : marks ⊆ itemEnds) {cs y : List Char}
    (hcs : ∀ c ∈ cs, c ∉ markChars) (hy : Stops marks y) : untilMark marks (cs ++ y) = (cs, y) := by
  induction cs with
  | nil =>
    rcases hy with rfl | ⟨m, hm, hy⟩
    · rfl
    · cases y with
      | nil => rfl
      | cons c y => exact if_pos (List.any_eq_true.2 ⟨m, hm, hy⟩)
  | cons c cs ih =>
    obtain ⟨hc, hcs⟩ := List.forall_mem_cons.1 hcs
    have hany : (marks.any fun m => (Text.after? m.toList (c :: (cs ++ y))).isSome) = false := by
      rw [List.any_eq_false]
      intro m hm
      obtain ⟨d, ds, hd, hmark⟩ := head_mem_markChars hmarks hm
      have hne : d ≠ c := fun h => hc (h ▸ hmark)
      simp [hd, Text.after?, hne]
    rw [List.cons_append, untilMark, hany, ih hcs]
    rfl

theorem untilQuote?_quoted {q : Char} {s : List Char} (hs : q ∉ s) (x : List Char) :
    untilQuote? q (s ++ q :: x) = some (s, x) := by
  induction s with
  | nil => simp [untilQuote?]
  | cons c s ih =>
    simp only [List.mem_cons, not_or] at hs
    rw [List.cons_append, untilQuote?, if_neg (Ne.symm hs.1), ih hs.2]
    rfl

theorem Blanks.not_mem_markChars {b : List Char} (hb : Blanks b) : ∀ c ∈ b, c ∉ markChars := by
  intro c hc hmark
  have hall : (markChars.all fun d => !Text.isBlank d) = true := by decide
  have hnone := List.all_eq_true.1 hall c hmark
  simp [hb c hc] at hnone

section

variable (ctx : Context) {marks : List String} (hmarks : marks ⊆ itemEnds)

include hmarks in
/-- A value without quotes is read up to the white space behind it. -/
theorem token_plain {a w x : List Char} (ha : Blanks a) (hne : w ≠ []) (hw : ∀ c ∈ w, IsPlain c)
    (hx : Stops marks (Text.trimStart x)) :
    token ctx marks (a ++ (w ++ x)) = .ok (w, Text.trimStart x) := by
  obtain ⟨b, hb, hbx⟩ := eq_blanks_append x
  generalize Text.trimStart x = y at hx hbx ⊢
  subst hbx
  have hcs : ∀ c ∈ w ++ b, c ∉ markChars := fun c hc =>
    (List.mem_append.1 hc).elim (fun hc => (hw c hc).2.1) (hb.not_mem_markChars c)
  have hread := untilMark_stops hmarks hcs hx
  have htrimEnd := trimEnd_blanks (fun c hc => (hw c hc).1) hb
  obtain ⟨c, cs, rfl⟩ := List.exists_cons_of_ne_nil hne
  obtain ⟨hblank, -, hquote⟩ := hw c (by simp)
  have htrim : Text.trimStart (a ++ (c :: cs ++ (b ++ y))) = c :: (cs ++ (b ++ y)) := by
    rw [trimStart_blanks ha, List.cons_append, trimStart_cons hblank]
  have huntil : untilMark marks (c :: (cs ++ (b ++ y))) = (c :: cs ++ b, y) := by simpa using hread
  have hnone : ¬(c = '"' ∨ c = '\'') := by simp [hquote]
  simp only [token, htrim, if_neg hnone, huntil, htrimEnd]
  rfl

/-- A quoted value is read up to the quote behind it. -/
theorem token_quoted (marks : List String) {a s : List Char} (ha : Blanks a) {q : Char}
    (hq : q = '"' ∨ q = '\'') (hs : q ∉ s) (x : List Char) :
    token ctx marks (a ++ (q :: (s ++ [q]) ++ x)) = .ok (s, x) := by
  have hblank : Text.isBlank q = false := by rcases hq with rfl | rfl <;> decide
  have htrim : Text.trimStart (a ++ (q :: (s ++ [q]) ++ x)) = q :: (s ++ q :: x) := by
    rw [trimStart_blanks ha, List.cons_append, trimStart_cons hblank]
    simp
  simp only [token, htrim, if_pos hq, untilQuote?_quoted hs]

theorem isPlain_of_mem_toString {i : Int} {c : Char} (h : c ∈ (toString i).toList) : IsPlain c := by
  have hc := isNumeral_of_mem h
  refine ⟨hc.isBlank, fun hmark => ?_, hc.ne (by decide), hc.ne (by decide)⟩
  have hall : (markChars.all fun d => !decide (IsNumeral d)) = true := by decide
  have hnone := List.all_eq_true.1 hall c hmark
  simp [hc] at hnone

theorem isPlain_of_mem_bool {b : Bool} {c : Char} (h : c ∈ (toString b).toList) : IsPlain c := by
  have hall : ((toString b).toList.all fun c => decide (IsPlain c)) = true := by cases b <;> decide
  exact of_decide_eq_true (List.all_eq_true.1 hall c h)

include hmarks in
/-- A value of a field reads as written, up to the white space behind it. -/
theorem value_written {v : Scalar} {f : Field} (hkind : v.kind = f.kind) {a w x : List Char}
    (ha : Blanks a) (hw : v.Written w) (hx : Stops marks (Text.trimStart x)) :
    ∃ rest, value ctx marks f (a ++ (w ++ x)) = .ok (v, rest) ∧
    Text.trimStart rest = Text.trimStart x := by
  cases hw with
  | @int i hi =>
    have htoken :=
      token_plain ctx hmarks ha (toList_toString_ne_nil i) (fun _ => isPlain_of_mem_toString) hx
    refine ⟨_, bind_eq_ok.2 ⟨_, htoken, ?_⟩, trimStart_trimStart x⟩
    have hscalar : scalar? ctx f.kind (toString i).toList = some (.int i) := by
      rw [← hkind]
      show (Integer.int64? _).map Scalar.int = _
      rw [Integer.int64?_toString, if_pos hi]
      rfl
    simp only [hscalar]
  | bool b =>
    have hne : (toString b).toList ≠ [] := by cases b <;> decide
    have htoken := token_plain ctx hmarks ha hne (fun _ => isPlain_of_mem_bool) hx
    refine ⟨_, bind_eq_ok.2 ⟨_, htoken, ?_⟩, trimStart_trimStart x⟩
    have hscalar : scalar? ctx f.kind (toString b).toList = some (.bool b) := by
      rw [← hkind]
      cases b <;> rfl
    simp only [hscalar]
  | @text s q hq hs =>
    refine ⟨x, bind_eq_ok.2 ⟨_, token_quoted ctx marks ha hq hs x, ?_⟩, rfl⟩
    have hscalar : scalar? ctx f.kind s.toList = some (.text s) := by
      rw [← hkind]
      show some (Scalar.text (String.ofList s.toList)) = _
      rw [String.ofList_toList]
    simp only [hscalar]

end

/-! ### What follows -/

theorem eq_append_of_after? {token cs rest : List Char} (h : Text.after? token cs = some rest) :
    cs = token ++ rest := by
  induction token generalizing cs with
  | nil => exact Option.some.inj h
  | cons t token ih =>
    cases cs with
    | nil => simp [Text.after?] at h
    | cons c cs =>
      unfold Text.after? at h
      split at h
      · rename_i htc
        rw [htc, ih h, List.cons_append]
      · simp at h

/-- The text goes on as it may behind a condition: not at all, or with a mark or a closing
parenthesis. -/
def Follows (x : List Char) : Prop := Stops valueEnds (Text.trimStart x)

theorem Follows.cases {x : List Char} (h : Follows x) :
    Text.trimStart x = [] ∨ ∃ y, Text.trimStart x = '&' :: '&' :: y ∨
    Text.trimStart x = '|' :: '|' :: y ∨
      Text.trimStart x = ')' :: y := by
  refine h.imp_right fun ⟨m, hm, hx⟩ => ?_
  obtain ⟨y, hy⟩ := Option.isSome_iff_exists.1 hx
  have hsplit := eq_append_of_after? hy
  simp only [valueEnds, List.mem_cons, List.not_mem_nil, or_false] at hm
  rcases hm with rfl | rfl | rfl
  · exact ⟨y, .inl hsplit⟩
  · exact ⟨y, .inr (.inl hsplit)⟩
  · exact ⟨y, .inr (.inr hsplit)⟩

/-- No comma stands behind a condition. -/
theorem Follows.eat?_comma {x : List Char} (h : Follows x) : eat? "," x = none := by
  rcases h.cases with hx | ⟨y, hx | hx | hx⟩ <;> rw [eat?, hx] <;> rfl

theorem Follows.blanks_append {b x : List Char} (hb : Blanks b) (h : Follows x) :
    Follows (b ++ x) := by
  rwa [Follows, trimStart_blanks hb]

theorem follows_nil : Follows [] := .inl rfl

theorem follows_and (x : List Char) : Follows (['&', '&'] ++ x) := by
  rw [Follows, List.cons_append, trimStart_cons (by decide)]
  exact .inr ⟨"&&", by decide, rfl⟩

theorem follows_or (x : List Char) : Follows (['|', '|'] ++ x) := by
  rw [Follows, List.cons_append, trimStart_cons (by decide)]
  exact .inr ⟨"||", by decide, rfl⟩

/-! ### Conditions -/

variable (ctx : Context)

theorem Padded.blanks_append {P : List Char → Prop} {b w : List Char} (hb : Blanks b)
    (h : Padded P w) :
    Padded P (b ++ w) := by
  obtain ⟨a, v, d, ha, hv, hd, rfl⟩ := h
  refine ⟨b ++ a, v, d, fun c hc => ?_, hv, hd, by simp⟩
  exact (List.mem_append.1 hc).elim (hb c) (ha c)

theorem length_le_behind {α : Type} (c : Char) (ps : List (α × List Char)) :
    ps.length ≤ (behind [c] ps).length := by
  induction ps with
  | nil => simp
  | cons p ps ih =>
    simp only [behind_cons, List.length_append, List.length_cons]
    omega

/-- A list of values reads as written. -/
theorem values_written {f : Field} {item : Scalar × List Char} {items : List (Scalar × List Char)}
    (hitem : Padded item.1.Written item.2) (hitems : ∀ p ∈ items, Padded p.1.Written p.2)
    (hkinds : ∀ v ∈ item.1 :: items.map Prod.fst, v.kind = f.kind) {n : Nat} (hn : items.length < n)
    {x : List Char} (hx : Follows x) :
    ∃ rest, values ctx f n (item.2 ++ (behind [','] items ++ x)) =
      .ok (item.1 :: items.map Prod.fst, rest) ∧ Text.trimStart rest = Text.trimStart x := by
  induction items generalizing item n with
  | nil =>
    obtain ⟨n, rfl⟩ : ∃ m, n = m + 1 := ⟨n - 1, by omega⟩
    obtain ⟨a, w, b, ha, hw, hb, hsplit⟩ := hitem
    have hbx := hx.blanks_append hb
    obtain ⟨rest, hvalue, hrest⟩ :=
      value_written ctx (List.Subset.refl itemEnds) (hkinds item.1 (by simp)) ha hw
      (Stops.itemEnds hbx)
    rw [trimStart_blanks hb] at hrest
    refine ⟨rest, bind_eq_ok.2 ⟨(item.1, rest), ?_, ?_⟩, hrest⟩
    · simpa [hsplit] using hvalue
    · simp only [eat?_congr "," hrest, hx.eat?_comma]
      rfl
  | cons next items ih =>
    obtain ⟨n, rfl⟩ : ∃ m, n = m + 1 := ⟨n - 1, by omega⟩
    obtain ⟨hnext, hitems⟩ := List.forall_mem_cons.1 hitems
    obtain ⟨hkind, hkinds⟩ := List.forall_mem_cons.1 hkinds
    obtain ⟨rest, hvalues, hrest⟩ := ih hnext hitems hkinds (n := n) (by simpa using hn)
    obtain ⟨a, w, b, ha, hw, hb, hsplit⟩ := hitem
    -- The comma behind the value is all that is left in front of the next one.
    generalize htail : next.2 ++ (behind [','] items ++ x) = tail at hvalues
    have hcomma : Text.trimStart (b ++ ',' :: tail) = ',' :: tail := by
      rw [trimStart_blanks hb, trimStart_cons (by decide)]
    have hstops : Stops itemEnds (Text.trimStart (b ++ ',' :: tail)) := by
      rw [hcomma]
      exact .inr ⟨",", by decide, rfl⟩
    obtain ⟨rest', hvalue, hrest'⟩ :=
      value_written ctx (List.Subset.refl itemEnds) hkind ha hw hstops
    have heat : eat? "," rest' = some tail := by
      rw [eat?, hrest', hcomma]
      rfl
    refine ⟨rest, bind_eq_ok.2 ⟨(item.1, rest'), ?_, ?_⟩, hrest⟩
    · simpa [hsplit, ← htail] using hvalue
    · simp only [heat]
      exact bind_eq_ok.2 ⟨_, hvalues, rfl⟩

theorem Condition.Written.exists_cons {c : Condition} {w : List Char} (hw : c.Written w) :
    ∃ d ds, w = d :: ds ∧ isNameChar d = true := by
  cases hw with
  | intro hname =>
    obtain ⟨d, ds, rfl, hd⟩ := exists_cons_of_name hname
    exact ⟨d, _, rfl, hd d (by simp)⟩

/-- What a field is compared with reads as written. -/
theorem operand_written {c : Condition} (hc : c.WellFormed) {b w x : List Char} (hb : Blanks b)
    (hw : c.operand.Written w) (hx : Follows x) :
    ∃ rest, operand ctx c.field c.comparator (b ++ (w ++ x)) = .ok (c.operand, rest) ∧
      Text.trimStart rest = Text.trimStart x := by
  have hkinds := hc.kinds
  have hseveral := hc.several
  generalize c.operand = o at hw hkinds hseveral
  cases hw with
  | @single v w hw =>
    have hcmp : c.comparator ≠ .among := fun h => by simp [h] at hseveral
    obtain ⟨rest, hvalue, hrest⟩ := value_written ctx valueEnds_subset
      (hkinds v (by simp [Operand.values])) hb hw hx
    refine ⟨rest, ?_, hrest⟩
    rw [operand, if_neg hcmp]
    exact bind_eq_ok.2 ⟨_, hvalue, rfl⟩
  | @several item items hitem hitems =>
    have hcmp : c.comparator = .among := hseveral.2 ⟨_, rfl⟩
    have hcommas := length_le_behind ',' items
    have hlength : items.length < (b ++ (item.2 ++ behind [','] items ++ x)).length + 1 := by
      simp only [List.length_append]
      omega
    obtain ⟨rest, hvalues, hrest⟩ :=
      @values_written ctx _ (item.1, b ++ item.2) _ (hitem.blanks_append hb)
      hitems hkinds _ hlength x hx
    refine ⟨rest, ?_, hrest⟩
    rw [operand, if_pos hcmp]
    refine bind_eq_ok.2 ⟨(_, rest), ?_, rfl⟩
    simpa using hvalues

theorem head?_blanks_append {a y : List Char} (ha : Blanks a) (hy : y.head? ≠ some '=') :
    (a ++ y).head? ≠ some '=' := by
  cases a with
  | nil => exact hy
  | cons c a =>
    intro h
    obtain rfl : c = '=' := by simpa using h
    exact absurd (ha '=' (by simp)) (by decide)

theorem Scalar.Written.head?_ne {v : Scalar} {w : List Char} (hw : v.Written w) (x : List Char) :
    (w ++ x).head? ≠ some '=' := by
  cases hw with
  | @int i _ =>
    rw [List.head?_append_of_ne_nil _ (toList_toString_ne_nil i)]
    intro h
    exact absurd (isNumeral_of_mem (List.mem_of_head? h)) (by decide)
  | bool b => cases b <;> simp [toString]
  | text hq _ => rcases hq with rfl | rfl <;> simp

/-- What a field is compared with does not make the comparator in front of it longer. -/
theorem Operand.Written.head?_ne {o : Operand} {w : List Char} (hw : o.Written w) (x : List Char) :
    (w ++ x).head? ≠ some '=' := by
  cases hw with
  | single hw => exact hw.head?_ne x
  | several hitem _ =>
    obtain ⟨a, v, b, ha, hv, -, hsplit⟩ := hitem
    simp only [hsplit, List.append_assoc]
    exact head?_blanks_append ha (hv.head?_ne _)

/-- A condition reads as written. -/
theorem condition_written {c : Condition} (hc : c.WellFormed) {a w x : List Char} (ha : Blanks a)
    (hw : c.Written w) (hx : Follows x) :
    ∃ rest, condition ctx (a ++ (w ++ x)) = .ok (.condition c, rest) ∧
      Text.trimStart rest = Text.trimStart x := by
  cases hw with
  | @intro f cmp o name b word d w hname hword hb hd hspace hw =>
    obtain ⟨rest, hoperand, hrest⟩ := operand_written ctx hc hd hw hx
    refine ⟨rest, ?_, hrest⟩
    have htext : name ++ (b ++ (word ++ (d ++ w))) ++ x =
        name ++ (b ++ (word ++ (d ++ (w ++ x)))) := by simp
    obtain ⟨hne, htrim, htake, hdrop⟩ := name_append hname
      (isNameChar_head_comparator (y := d ++ (w ++ x)) hb hword fun h => (hspace h).1)
    have hcomparator : comparator (b ++ (word ++ (d ++ (w ++ x)))) = .ok (cmp, d ++ (w ++ x)) := by
      refine comparator_written hb hword (head?_blanks_append hd (hw.head?_ne x)) fun h => ?_
      obtain ⟨c, cs, rfl⟩ := List.exists_cons_of_ne_nil (hspace h).2
      exact ⟨c, cs ++ (w ++ x), by simp, hd c (by simp)⟩
    have hsupported : supports f cmp = true := hc.supported
    simp only [condition, htext, trimStart_blanks ha, htrim, htake, hdrop, hne,
      ofName?_of_sameWord hname, Bool.false_eq_true, if_false]
    refine bind_eq_ok.2 ⟨_, hcomparator, ?_⟩
    simp only [if_pos hsupported]
    exact bind_eq_ok.2 ⟨_, hoperand, rfl⟩

/-! ### Groups

As in `disjunction_within`, three levels for every character are enough. -/

/-- The text reads as the expression where a part of a conjunction is expected, up to the white
space behind it. -/
def ReadsAsPart (e : Expr) (w : List Char) : Prop :=
  ∀ ctx n x, 3 * w.length + 1 ≤ n → Follows x →
    ∃ rest, primary ctx n (w ++ x) = .ok (e, rest) ∧ Text.trimStart rest = Text.trimStart x

/-- The text reads as the expression where a conjunction is expected and does not go on. -/
def ReadsAsConjunction (e : Expr) (w : List Char) : Prop :=
  ∀ ctx n x, 3 * w.length + 2 ≤ n → Follows x → eat? "&&" x = none →
    ∃ rest, conjunction ctx n (w ++ x) = .ok (e, rest) ∧ Text.trimStart rest = Text.trimStart x

/-- The text reads as the expression to its end. -/
def ReadsAsWhole (e : Expr) (w : List Char) : Prop :=
  ∀ ctx n, 3 * w.length + 3 ≤ n → ∃ rest, disjunction ctx n w = .ok (e, rest) ∧
  Text.trimStart rest = []

theorem readsAsPart_condition {c : Condition} (hc : c.WellFormed) {w : List Char}
    (hw : Padded c.Written w) :
    ReadsAsPart (.condition c) w := by
  intro ctx n x hn hx
  obtain ⟨n, rfl⟩ : ∃ m, n = m + 1 := ⟨n - 1, by omega⟩
  obtain ⟨a, w, b, ha, hw, hb, rfl⟩ := hw
  obtain ⟨d, ds, rfl, hd⟩ := hw.exists_cons
  obtain ⟨rest, hread, hrest⟩ := condition_written ctx hc ha hw (hx.blanks_append hb)
  rw [trimStart_blanks hb] at hrest
  refine ⟨rest, ?_, hrest⟩
  have hsplit : a ++ (d :: ds ++ b) ++ x = a ++ (d :: ds ++ (b ++ x)) := by simp
  have hparen : eat? "(" (a ++ (d :: ds ++ (b ++ x))) = none := by
    have hne : '(' ≠ d := by
      rintro rfl
      exact absurd hd (by decide)
    rw [eat?, trimStart_blanks ha, List.cons_append, trimStart_cons (isBlank_of_isNameChar hd)]
    simp [Text.after?, hne]
  simp only [primary, hsplit, hparen, hread]

theorem readsAsPart_parentheses {e : Expr} {a w b : List Char} (ha : Blanks a)
    (hw : ReadsAsWhole e w) (hb : Blanks b) : ReadsAsPart e (a ++ '(' :: (w ++ ')' :: b)) := by
  intro ctx n x hn _
  obtain ⟨n, rfl⟩ : ∃ m, n = m + 1 := ⟨n - 1, by omega⟩
  simp only [List.length_append, List.length_cons] at hn
  obtain ⟨rest, hread, hrest⟩ := hw ctx n (by omega)
  have hgroup := primary_group ctx ⟨rfl, rfl⟩ (Nat.le_refl n) hread hrest (b ++ x)
  refine ⟨b ++ x, ?_, trimStart_blanks hb x⟩
  have hsplit : a ++ '(' :: (w ++ ')' :: b) ++ x = a ++ '(' :: (w ++ ')' :: (b ++ x)) := by simp
  have hblanks : eat? "(" (a ++ '(' :: (w ++ ')' :: (b ++ x))) =
      eat? "(" ('(' :: (w ++ ')' :: (b ++ x))) :=
    eat?_congr _ (trimStart_blanks ha _)
  have hopen : eat? "(" ('(' :: (w ++ ')' :: (b ++ x))) = some (w ++ ')' :: (b ++ x)) := rfl
  rw [hsplit, ← hgroup]
  simp only [primary, hblanks, hopen]

theorem follows_behind {mark : List Char} (hmark : ∀ y, Follows (mark ++ y))
    (parts : List (Expr × List Char)) {x : List Char} (hx : Follows x) :
    Follows (behind mark parts ++ x) := by
  cases parts with
  | nil => exact hx
  | cons p ps =>
    rw [behind_cons, List.append_assoc]
    exact hmark _

theorem eat?_and (x : List Char) : eat? "&&" (['&', '&'] ++ x) = some x := by
  simp [eat?, trimStart_cons, Text.isBlank, Text.after?]

theorem eat?_or (x : List Char) : eat? "||" (['|', '|'] ++ x) = some x := by
  simp [eat?, trimStart_cons, Text.isBlank, Text.after?]

/-- The parts of a conjunction behind the first one read as written. -/
theorem conjuncts_written (ctx : Context) {parts : List (Expr × List Char)}
    (hparts : ∀ p ∈ parts, ReadsAsPart p.1 p.2) {x : List Char} (hx : Follows x)
    (hand : eat? "&&" x = none) {n : Nat} (hn : 3 * (behind ['&', '&'] parts).length + 1 ≤ n)
    {cs : List Char} (hcs : Text.trimStart cs = Text.trimStart (behind ['&', '&'] parts ++ x)) :
    ∃ rest, conjuncts ctx n cs = .ok (parts.map Prod.fst, rest) ∧
    Text.trimStart rest = Text.trimStart x := by
  induction parts generalizing n cs with
  | nil =>
    obtain ⟨n, rfl⟩ : ∃ m, n = m + 1 := ⟨n - 1, by omega⟩
    have heat : eat? "&&" cs = none := (eat?_congr "&&" hcs).trans hand
    refine ⟨cs, ?_, hcs⟩
    simp only [conjuncts, heat]
    rfl
  | cons p ps ih =>
    obtain ⟨n, rfl⟩ : ∃ m, n = m + 1 := ⟨n - 1, by omega⟩
    obtain ⟨hp, hps⟩ := List.forall_mem_cons.1 hparts
    rw [behind_cons] at hn hcs
    simp only [List.length_append, List.length_cons, List.length_nil] at hn
    have hlength : 3 * p.2.length + 1 ≤ n := by omega
    have hlengths : 3 * (behind ['&', '&'] ps).length + 1 ≤ n := by omega
    obtain ⟨rest, hread, hrest⟩ := hp ctx n _ hlength (follows_behind follows_and ps hx)
    obtain ⟨rest', hmore, hrest'⟩ := ih hps hlengths hrest
    have heat : eat? "&&" cs = some (p.2 ++ (behind ['&', '&'] ps ++ x)) := by
      rw [eat?_congr "&&" hcs, List.append_assoc, List.append_assoc, eat?_and]
    refine ⟨rest', ?_, hrest'⟩
    simp only [conjuncts, heat]
    exact bind_eq_ok.2 ⟨_, hread, bind_eq_ok.2 ⟨_, hmore, rfl⟩⟩

/-- Parts with marks for "and" between them read as their conjunction. -/
theorem readsAsConjunction {part : Expr × List Char} {parts : List (Expr × List Char)}
    (hpart : ReadsAsPart part.1 part.2) (hparts : ∀ p ∈ parts, ReadsAsPart p.1 p.2) :
    ReadsAsConjunction (group .all part.1 (parts.map Prod.fst))
      (part.2 ++ behind ['&', '&'] parts) := by
  intro ctx n x hn hx hand
  obtain ⟨n, rfl⟩ : ∃ m, n = m + 1 := ⟨n - 1, by omega⟩
  rw [List.length_append] at hn
  have hlength : 3 * part.2.length + 1 ≤ n := by omega
  have hlengths : 3 * (behind ['&', '&'] parts).length + 1 ≤ n := by omega
  obtain ⟨rest, hread, hrest⟩ := hpart ctx n _ hlength (follows_behind follows_and parts hx)
  obtain ⟨rest', hmore, hrest'⟩ := conjuncts_written ctx hparts hx hand hlengths hrest
  refine ⟨rest', ?_, hrest'⟩
  rw [List.append_assoc, conjunction]
  exact bind_eq_ok.2 ⟨_, hread, bind_eq_ok.2 ⟨_, hmore, rfl⟩⟩

theorem eat?_and_behind (parts : List (Expr × List Char)) :
    eat? "&&" (behind ['|', '|'] parts) = none := by
  cases parts with
  | nil => rfl
  | cons p ps =>
    rw [behind_cons, eat?]
    simp [trimStart_cons, Text.isBlank, Text.after?]

/-- The parts of a disjunction behind the first one read as written. -/
theorem disjuncts_written (ctx : Context) {parts : List (Expr × List Char)}
    (hparts : ∀ p ∈ parts, ReadsAsConjunction p.1 p.2) {n : Nat}
    (hn : 3 * (behind ['|', '|'] parts).length + 2 ≤ n) {cs : List Char}
    (hcs : Text.trimStart cs = Text.trimStart (behind ['|', '|'] parts)) :
    ∃ rest, disjuncts ctx n cs = .ok (parts.map Prod.fst, rest) ∧ Text.trimStart rest = [] := by
  induction parts generalizing n cs with
  | nil =>
    obtain ⟨n, rfl⟩ : ∃ m, n = m + 1 := ⟨n - 1, by omega⟩
    have heat : eat? "||" cs = none := (eat?_congr "||" hcs).trans rfl
    refine ⟨cs, ?_, hcs⟩
    simp only [disjuncts, heat]
    rfl
  | cons p ps ih =>
    obtain ⟨n, rfl⟩ : ∃ m, n = m + 1 := ⟨n - 1, by omega⟩
    obtain ⟨hp, hps⟩ := List.forall_mem_cons.1 hparts
    rw [behind_cons] at hn hcs
    simp only [List.length_append, List.length_cons, List.length_nil] at hn
    have hlength : 3 * p.2.length + 2 ≤ n := by omega
    have hlengths : 3 * (behind ['|', '|'] ps).length + 2 ≤ n := by omega
    have hfollows : Follows (behind ['|', '|'] ps) := by
      simpa using follows_behind follows_or ps follows_nil
    obtain ⟨rest, hread, hrest⟩ := hp ctx n _ hlength hfollows (eat?_and_behind ps)
    obtain ⟨rest', hmore, hrest'⟩ := ih hps hlengths hrest
    have heat : eat? "||" cs = some (p.2 ++ behind ['|', '|'] ps) := by
      rw [eat?_congr "||" hcs, eat?_or]
    refine ⟨rest', ?_, hrest'⟩
    simp only [disjuncts, heat]
    exact bind_eq_ok.2 ⟨_, hread, bind_eq_ok.2 ⟨_, hmore, rfl⟩⟩

/-- Conjunctions with marks for "or" between them read as their disjunction. -/
theorem readsAsWhole {part : Expr × List Char} {parts : List (Expr × List Char)}
    (hpart : ReadsAsConjunction part.1 part.2) (hparts : ∀ p ∈ parts, ReadsAsConjunction p.1 p.2) :
    ReadsAsWhole (group .any part.1 (parts.map Prod.fst)) (part.2 ++ behind ['|', '|'] parts) := by
  intro ctx n hn
  obtain ⟨n, rfl⟩ : ∃ m, n = m + 1 := ⟨n - 1, by omega⟩
  rw [List.length_append] at hn
  have hlength : 3 * part.2.length + 2 ≤ n := by omega
  have hlengths : 3 * (behind ['|', '|'] parts).length + 2 ≤ n := by omega
  have hfollows : Follows (behind ['|', '|'] parts) := by
    simpa using follows_behind follows_or parts follows_nil
  obtain ⟨rest, hread, hrest⟩ := hpart ctx n _ hlength hfollows (eat?_and_behind parts)
  obtain ⟨rest', hmore, hrest'⟩ := disjuncts_written ctx hparts hlengths hrest
  refine ⟨rest', ?_, hrest'⟩
  rw [disjunction]
  exact bind_eq_ok.2 ⟨_, hread, bind_eq_ok.2 ⟨_, hmore, rfl⟩⟩

/-- A part alone is a conjunction. -/
theorem ReadsAsPart.alone {e : Expr} {w : List Char} (h : ReadsAsPart e w) :
    ReadsAsConjunction e w := by
  simpa [behind, group] using @readsAsConjunction (e, w) [] h (by simp)

/-- A conjunction alone is a whole. -/
theorem ReadsAsConjunction.alone {e : Expr} {w : List Char} (h : ReadsAsConjunction e w) :
    ReadsAsWhole e w := by
  simpa [behind, group] using @readsAsWhole (e, w) [] h (by simp)

/-! ### The whole text -/

/-- The text reads as the expression where the level expects it. -/
def Reads : Level → Expr → List Char → Prop
  | .whole => ReadsAsWhole
  | .part => ReadsAsPart

theorem group_of_ne_nil (join : List Expr → Expr) (first : Expr) {more : List Expr}
    (h : more ≠ []) :
    group join first more = join (first :: more) := by
  cases more with
  | nil => exact absurd rfl h
  | cons e es => rfl

/-- Every text that a well-formed expression can be written as reads as the expression. -/
theorem Expr.Written.reads {level : Level} {e : Expr} {w : List Char} (h : e.Written level w)
    (he : e.WellFormed) :
    Reads level e w := by
  induction h with
  | condition hw =>
    cases he with
    | condition hc => exact readsAsPart_condition hc hw
  | parentheses ha _ hb ih => exact readsAsPart_parentheses ha (ih he) hb
  | alone _ ih => exact (ih he).alone.alone
  | all hne _ _ ihpart ihparts =>
    cases he with
    | all _ hes =>
      obtain ⟨hpart, hparts⟩ := List.forall_mem_cons.1 hes
      have hread :=
        readsAsConjunction (ihpart hpart) fun p hp =>
          ihparts p hp (hparts p.1 (List.mem_map_of_mem hp))
      rw [group_of_ne_nil _ _ (by simpa using hne)] at hread
      exact hread.alone
  | any hne _ _ ihpart ihparts =>
    cases he with
    | any _ hes =>
      obtain ⟨hpart, hparts⟩ := List.forall_mem_cons.1 hes
      have hread := readsAsWhole (ReadsAsPart.alone (ihpart hpart)) fun p hp =>
        ReadsAsPart.alone (ihparts p hp (hparts p.1 (List.mem_map_of_mem hp)))
      rwa [group_of_ne_nil _ _ (by simpa using hne)] at hread

theorem Expr.Written.not_isAllBlank {level : Level} {e : Expr} {w : List Char}
    (h : e.Written level w) :
    Text.isAllBlank w = false := by
  rw [Text.isAllBlank, List.all_eq_false]
  induction h with
  | condition hw =>
    obtain ⟨a, w, b, -, hw, -, rfl⟩ := hw
    obtain ⟨d, ds, rfl, hd⟩ := hw.exists_cons
    exact ⟨d, by simp, by simp [isBlank_of_isNameChar hd]⟩
  | parentheses => exact ⟨'(', by simp, by decide⟩
  | alone _ ih => exact ih
  | all _ _ _ ih => exact ih.imp fun c hc => ⟨List.mem_append_left _ hc.1, hc.2⟩
  | any _ _ _ ih => exact ih.imp fun c hc => ⟨List.mem_append_left _ hc.1, hc.2⟩

/-- Reading undoes writing: a well-formed expression over integers, truth values and texts can be
written, and every text that it can be written as reads as exactly this expression, whose conditions
stand in the text in their order. -/
theorem parse_written {e : Expr} (he : e.WellFormed)
    (hvalues : ∀ c ∈ e.conditions, ∀ v ∈ c.operand.values, v.Writable)
    {zones : String → Option Zone} {zoneName : String} {z : Zone} (hz : zone zones zoneName = .ok z)
    (now : Instant) :
    (∃ text : String, e.Written .whole text.toList) ∧
      ∀ text : String, e.Written .whole text.toList →
        parse zones now text zoneName = .ok (some e) ∧ InOrder e.conditions text.toList := by
  refine ⟨?_, fun text hw => ⟨?_, hw.inOrder⟩⟩
  · obtain ⟨w, hw⟩ := he.exists_written hvalues
    exact ⟨String.ofList w, by rwa [String.toList_ofList]⟩
  · have hread : ReadsAsWhole e text.toList := hw.reads he
    have hparse : parseIn z now text.toList = .ok e :=
      parseIn_eq_ok.2 (hread _ _ (by unfold depthFor; omega))
    rw [parse, hw.not_isAllBlank, if_neg Bool.false_ne_true]
    exact bind_eq_ok.2 ⟨z, hz, bind_eq_ok.2 ⟨e, hparse, rfl⟩⟩

/-- Names and words in mixed case, a quoted text with a parenthesis and a mark, a list, and a group
inside a group. -/
theorem parse_written_nested :
    ∃ title labels done : Condition, title = ⟨.title, .like, .single (.text "a) && b")⟩ ∧
      labels = ⟨.labels, .among, .several [.int (-2), .int 7]⟩ ∧
      done = ⟨.done, .equal, .single (.bool true)⟩ ∧
      parse Zone.tabulated? default
        "( TITLE LiKe\u3000'a) && b'&&labels IN -2 ,7 )|| Done=true" "" =
        .ok (some (.any [.all [.condition title, .condition labels], .condition done])) ∧
      InOrder [title, labels, done]
        "( TITLE LiKe\u3000'a) && b'&&labels IN -2 ,7 )|| Done=true".toList := by
  have hblank : Blanks [' '] := blanks_singleton (by decide)
  have hwide : Blanks ['\u3000'] := blanks_singleton (by decide)
  obtain ⟨title, htitle⟩ : ∃ c : Condition, c = ⟨.title, .like, .single (.text "a) && b")⟩ :=
    ⟨_, rfl⟩
  obtain ⟨labels, hlabels⟩ : ∃ c : Condition,
      c = ⟨.labels, .among, .several [.int (-2), .int 7]⟩ := ⟨_, rfl⟩
  obtain ⟨done, hdone⟩ : ∃ c : Condition, c = ⟨.done, .equal, .single (.bool true)⟩ := ⟨_, rfl⟩
  have htitleText : title.Written "TITLE LiKe\u3000'a) && b'".toList := by
    rw [htitle]
    exact @Condition.Written.intro _ _ _ "TITLE".toList [' '] "LiKe".toList ['\u3000'] _
      (by decide) (by decide) hblank
      hwide (by simp) (.single (.text (.inr rfl) (by decide)))
  have hlabelsText : labels.Written "labels IN -2 ,7".toList := by
    have hlist := @Operand.Written.several (.int (-2), "-2 ".toList) [(.int 7, "7".toList)]
      ⟨[], _, [' '], blanks_nil, .int (by decide), hblank, by decide⟩
      (by simpa using padded_of (.int (i := 7) (by decide)))
    rw [hlabels]
    exact @Condition.Written.intro _ _ _ "labels".toList [' '] "IN".toList [' '] _ (by decide)
      (by decide) hblank hblank
      (by simp) hlist
  have hdoneText : done.Written "Done=true".toList := by
    rw [hdone]
    exact @Condition.Written.intro _ _ _ "Done".toList [] "=".toList [] _ (by decide)
      (by decide) blanks_nil blanks_nil
      (by simp [Comparator.IsWord]) (.single (.bool true))
  have hconditions : title.WellFormed ∧ labels.WellFormed ∧ done.WellFormed := by
    rw [htitle, hlabels, hdone]
    refine ⟨⟨rfl, ?_, ?_, ?_⟩, ⟨rfl, ?_, ?_, ?_⟩, ⟨rfl, ?_, ?_, ?_⟩⟩ <;> simp [Operand.values,
      Scalar.kind, Field.kind]
  have he : Expr.WellFormed (.any [.all [.condition title, .condition labels],
      .condition done]) := by
    obtain ⟨htitle, hlabels, hdone⟩ := hconditions
    have hparts := List.forall_mem_cons.2
      ⟨Expr.WellFormed.condition htitle,
        List.forall_mem_singleton.2 (Expr.WellFormed.condition hlabels)⟩
    exact .any (by simp) (List.forall_mem_cons.2
      ⟨.all (by simp) hparts, List.forall_mem_singleton.2 (.condition hdone)⟩)
  have hvalues : ∀ c ∈ [title, labels, done], ∀ v ∈ c.operand.values, v.Writable := by
    have hints : Integer.Bounds.int64.holds (-2) = true ∧ Integer.Bounds.int64.holds 7 = true := by
      decide
    simpa [htitle, hlabels, hdone, Operand.values, Scalar.Writable] using hints
  have hw : Expr.Written .whole (.any [.all [.condition title, .condition labels], .condition done])
      "( TITLE LiKe\u3000'a) && b'&&labels IN -2 ,7 )|| Done=true".toList := by
    have hall :=
      @Expr.Written.all (_, _) [(_, _)] (by simp) (.condition ⟨_, _, _, hblank, htitleText,
        blanks_nil, rfl⟩)
      (List.forall_mem_singleton.2 (.condition ⟨_, _, _, blanks_nil, hlabelsText, hblank, rfl⟩))
    have hany :=
      @Expr.Written.any (_, _) [(_, _)] (by simp) (.parentheses blanks_nil hall blanks_nil)
      (List.forall_mem_singleton.2 (.condition ⟨_, _, _, hblank, hdoneText, blanks_nil, rfl⟩))
    simpa using hany
  have hz : zone Zone.tabulated? "" = .ok .utc := rfl
  obtain ⟨hparse, horder⟩ := (parse_written he hvalues hz default).2 _ hw
  exact ⟨title, labels, done, htitle, hlabels, hdone, hparse, horder⟩

end Kanban.Filter
