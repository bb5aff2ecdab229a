import Kanban.Proofs.Filter.Suffix

/-!
# The depth of a text

The reader of filters never runs out of the depth that it is started with
(`Filter.parseIn_ne_tooDeep`).  A mark takes up text, so every step of the reader either stays at a
text and goes one level down the grammar, or leaves a shorter text behind it; three levels for every
character are enough.
-/

namespace Kanban.Filter

/-! ### Shorter texts -/

theorem length_trimStart_le (cs : List Char) : (Text.trimStart cs).length ≤ cs.length :=
  (List.dropWhile_sublist _).length_le

theorem length_of_after? {mark cs rest : List Char} (h : Text.after? mark cs = some rest) :
    rest.length + mark.length = cs.length := by
  induction mark generalizing cs with
  | nil =>
    obtain rfl : cs = rest := Option.some.inj h
    rfl
  | cons m mark ih =>
    cases cs with
    | nil => simp [Text.after?] at h
    | cons c cs =>
      unfold Text.after? at h
      split at h
      · have hrest := ih h
        simp only [List.length_cons]
        omega
      · simp at h

theorem length_of_eat? {mark : String} {cs rest : List Char} (h : eat? mark cs = some rest) :
    rest.length + mark.length ≤ cs.length := by
  have hrest := length_of_after? h
  have htrim := length_trimStart_le cs
  rw [String.length_toList] at hrest
  omega

theorem length_untilMark_le (marks : List String) (cs : List Char) :
    (untilMark marks cs).2.length ≤ cs.length := by
  induction cs with
  | nil => simp [untilMark]
  | cons c cs ih =>
    unfold untilMark
    split
    · exact Nat.le_refl _
    · exact Nat.le_succ_of_le ih

theorem length_of_untilQuote? {quote : Char} {cs front rest : List Char}
    (h : untilQuote? quote cs = some (front, rest)) : rest.length ≤ cs.length := by
  induction cs generalizing front with
  | nil => simp [untilQuote?] at h
  | cons c cs ih =>
    unfold untilQuote? at h
    split at h
    · obtain ⟨-, rfl⟩ := Prod.mk.inj (Option.some.inj h)
      exact Nat.le_succ _
    · obtain ⟨⟨front', rest'⟩, h', heq⟩ := Option.map_eq_some_iff.1 h
      obtain ⟨-, rfl⟩ := Prod.mk.inj heq
      exact Nat.le_succ_of_le (ih h')

theorem length_of_symbol? {cmps : List Comparator} {cs rest : List Char} {c : Comparator}
    (h : symbol? cmps cs = some (c, rest)) : rest.length ≤ cs.length := by
  induction cmps with
  | nil => simp [symbol?] at h
  | cons d more ih =>
    unfold symbol? at h
    split at h
    · rename_i rest' hrest
      obtain ⟨-, rfl⟩ := Prod.mk.inj (Option.some.inj h)
      have := length_of_after? hrest
      omega
    · exact ih h

/-! ### Readings inside a text -/

/-- Reading leaves at most the text, and if it fails, it is not for want of depth. -/
def Within {α : Type} (cs : List Char) : Except Fault (α × List Char) → Prop
  | .ok (_, rest) => rest.length ≤ cs.length
  | .error fault => fault ≠ .tooDeep

namespace Within

variable {α β : Type} {cs cs' : List Char}

theorem mono (hlen : cs.length ≤ cs'.length) :
    ∀ {x : Except Fault (α × List Char)}, Within cs x → Within cs' x
  | .ok _, h => Nat.le_trans h hlen
  | .error _, h => h

/-- What is read first leaves a text in which the rest is read. -/
theorem bind {x : Except Fault (α × List Char)} {f : α × List Char → Except Fault (β × List Char)}
    (hx : Within cs x) (hf : ∀ a rest, x = .ok (a, rest) → Within rest (f (a, rest))) :
    Within cs (x >>= f) := by
  match x, hx with
  | .ok (a, rest), hx => exact (hf a rest rfl).mono hx
  | .error _, hx => exact hx

theorem length_le {x : Except Fault (α × List Char)} (hx : Within cs x) {a : α} {rest : List Char}
    (h : x = .ok (a, rest)) : rest.length ≤ cs.length := by
  subst h
  exact hx

end Within

variable (ctx : Context)

theorem token_within (marks : List String) (cs : List Char) : Within cs (token ctx marks cs) := by
  have htrim := length_trimStart_le cs
  unfold token
  split
  · exact nofun
  · rename_i c body hcs
    rw [hcs, List.length_cons] at htrim
    split
    · split
      · rename_i reading hreading
        exact Nat.le_trans (length_of_untilQuote? hreading) (by omega)
      · exact nofun
    · have hmark := length_untilMark_le marks (c :: body)
      rw [List.length_cons] at hmark
      simp only
      split
      · exact nofun
      · exact Nat.le_trans hmark htrim

theorem value_within (marks : List String) (f : Field) (cs : List Char) :
    Within cs (value ctx marks f cs) := by
  refine (token_within ctx marks cs).bind fun raw rest _ => ?_
  simp only
  split
  · exact Nat.le_refl _
  · exact nofun

/-- There are no more values than characters. -/
theorem values_within (f : Field) {n : Nat} {cs : List Char} (hn : cs.length < n) :
    Within cs (values ctx f n cs) := by
  induction n generalizing cs with
  | zero => omega
  | succ n ih =>
    have hvalue := value_within ctx itemEnds f cs
    refine hvalue.bind fun v rest hv => ?_
    have hrest := hvalue.length_le hv
    simp only
    split
    · exact Nat.le_refl _
    · rename_i afterMark heat
      have hmark : afterMark.length + 1 ≤ rest.length := length_of_eat? heat
      exact ((ih (by omega)).bind fun _ _ _ => Nat.le_refl _).mono (by omega)

theorem comparator_within (cs : List Char) : Within cs (comparator cs) := by
  have htrim := length_trimStart_le cs
  unfold comparator
  simp only
  generalize Text.trimStart cs = ds at htrim
  refine Within.mono htrim ?_
  have hword : (ds.dropWhile (!Text.isBlank ·)).length ≤ ds.length :=
    (List.dropWhile_sublist _).length_le
  split
  · rename_i reading hsymbol
    exact length_of_symbol? hsymbol
  · split
    · exact hword
    · split
      · exact hword
      · exact nofun

theorem operand_within (f : Field) (c : Comparator) (cs : List Char) :
    Within cs (operand ctx f c cs) := by
  unfold operand
  split
  · exact (values_within ctx f (Nat.lt_succ_self _)).bind fun _ _ _ => Nat.le_refl _
  · exact (value_within ctx valueEnds f cs).bind fun _ _ _ => Nat.le_refl _

theorem condition_within (cs : List Char) : Within cs (condition ctx cs) := by
  unfold condition
  simp only
  refine Within.mono (length_trimStart_le cs) ?_
  generalize Text.trimStart cs = ds
  split
  · exact nofun
  split
  · exact nofun
  · rename_i f hf
    have hname : (ds.dropWhile isNameChar).length ≤ ds.length :=
      (List.dropWhile_sublist _).length_le
    refine ((comparator_within (ds.dropWhile isNameChar)).bind fun c rest _ => ?_).mono hname
    simp only
    split
    · exact (operand_within ctx f c rest).bind fun _ _ _ => Nat.le_refl _
    · exact nofun

/-! ### Expressions -/

mutual

/-- Three levels for every character and three more are enough for a disjunction. -/
theorem disjunction_within (n : Nat) (cs : List Char) (hn : 3 * cs.length + 3 ≤ n) :
    Within cs (disjunction ctx n cs) := by
  -- The induction of the whole block is on the depth; each level of the grammar needs one less than
  -- the one above.
  match n with
  | n + 1 =>
    unfold disjunction
    have hfirst := conjunction_within n cs (by omega)
    refine hfirst.bind fun first rest h => ?_
    have hrest := hfirst.length_le h
    exact (disjuncts_within n rest (by omega)).bind fun _ _ _ => Nat.le_refl _

theorem disjuncts_within (n : Nat) (cs : List Char) (hn : 3 * cs.length + 2 ≤ n) :
    Within cs (disjuncts ctx n cs) := by
  match n with
  | n + 1 =>
    unfold disjuncts
    split
    · exact Nat.le_refl _
    · rename_i afterMark heat
      have hmark : afterMark.length + 2 ≤ cs.length := length_of_eat? heat
      refine Within.mono (show afterMark.length ≤ cs.length by omega) ?_
      have hfirst := conjunction_within n afterMark (by omega)
      refine hfirst.bind fun first rest h => ?_
      have hrest := hfirst.length_le h
      exact (disjuncts_within n rest (by omega)).bind fun _ _ _ => Nat.le_refl _

theorem conjunction_within (n : Nat) (cs : List Char) (hn : 3 * cs.length + 2 ≤ n) :
    Within cs (conjunction ctx n cs) := by
  match n with
  | n + 1 =>
    unfold conjunction
    have hfirst := primary_within n cs (by omega)
    refine hfirst.bind fun first rest h => ?_
    have hrest := hfirst.length_le h
    exact (conjuncts_within n rest (by omega)).bind fun _ _ _ => Nat.le_refl _

theorem conjuncts_within (n : Nat) (cs : List Char) (hn : 3 * cs.length + 1 ≤ n) :
    Within cs (conjuncts ctx n cs) := by
  match n with
  | n + 1 =>
    unfold conjuncts
    split
    · exact Nat.le_refl _
    · rename_i afterMark heat
      have hmark : afterMark.length + 2 ≤ cs.length := length_of_eat? heat
      refine Within.mono (show afterMark.length ≤ cs.length by omega) ?_
      have hfirst := primary_within n afterMark (by omega)
      refine hfirst.bind fun first rest h => ?_
      have hrest := hfirst.length_le h
      exact (conjuncts_within n rest (by omega)).bind fun _ _ _ => Nat.le_refl _

theorem primary_within (n : Nat) (cs : List Char) (hn : 3 * cs.length + 1 ≤ n) :
    Within cs (primary ctx n cs) := by
  match n with
  | n + 1 =>
    unfold primary
    split
    · exact condition_within ctx cs
    · rename_i afterMark heat
      have hmark : afterMark.length + 1 ≤ cs.length := length_of_eat? heat
      refine Within.mono (show afterMark.length ≤ cs.length by omega) ?_
      refine (disjunction_within n afterMark (by omega)).bind fun e rest _ => ?_
      simp only
      split
      · exact nofun
      · rename_i rest' heat'
        have hclose : rest'.length + 1 ≤ rest.length := length_of_eat? heat'
        show rest'.length ≤ rest.length
        omega

end

/-- The depth for a text is enough to read it. -/
theorem parseIn_ne_tooDeep (z : Zone) (now : Instant) (cs : List Char) :
    parseIn z now cs ≠ .error .tooDeep := by
  have hread :=
    disjunction_within ⟨Text.byteLength cs, z, now⟩ (depthFor cs.length) cs
      (by unfold depthFor; omega)
  unfold parseIn
  simp only
  generalize disjunction _ _ cs = reading at hread ⊢
  match reading, hread with
  | .error fault, hread =>
    intro h
    exact hread (Except.error.inj h)
  | .ok (e, rest), _ =>
    simp only [bind, Except.bind]
    split
    · exact nofun
    · exact nofun

end Kanban.Filter
