import Mathlib.Data.List.Basic

/-!
# Reading statements

The boolean expression of a statement, read back from its text.  The text is cut into parentheses
and words (`Reader.tokens`), and the tokens are read one by one (`Reader.step`): parentheses make
groups, "and" binds tighter than "or", and everything else is a test, which keeps its own
parentheses.  A test reads as itself (`Reader.reads_test`), and parts that read as their trees,
joined by one word inside parentheses, read as the group of these trees (`Reader.reads_group`).
-/

namespace Kanban.Filter.Reader

/-! ### Tokens -/

/-- A parenthesis or a word; blanks separate words. -/
inductive Token where
  | opening
  | closing
  | word (cs : List Char)
  deriving DecidableEq

/-- The word that ends here, if there is one. -/
def ended (w : List Char) : List Token := if w = [] then [] else [.word w]

/-- The tokens of a text behind the beginning of a word. -/
def tokensFrom (w : List Char) : List Char → List Token
  | [] => ended w
  | c :: cs =>
    if c = ' ' then ended w ++ tokensFrom [] cs
    else if c = '(' then ended w ++ .opening :: tokensFrom [] cs
    else if c = ')' then ended w ++ .closing :: tokensFrom [] cs
    else tokensFrom (w ++ [c]) cs

def tokens (cs : List Char) : List Token := tokensFrom [] cs

/-- A blank or a parenthesis ends a word. -/
def IsSeparator (c : Char) : Prop := c ∈ [' ', '(', ')']

/-- The tokens of a text do not depend on what stands behind a separator. -/
theorem tokensFrom_append {sep : Char} (hsep : IsSeparator sep) (w a b : List Char) :
    tokensFrom w (a ++ sep :: b) = tokensFrom w a ++ tokens (sep :: b) := by
  induction a generalizing w with
  | nil =>
    simp only [IsSeparator, List.mem_cons, List.not_mem_nil, or_false] at hsep
    rcases hsep with rfl | rfl | rfl <;> simp [tokensFrom, tokens, ended]
  | cons c a ih =>
    simp only [List.cons_append, tokensFrom, ih]
    split_ifs <;> simp

section

variable (a b : List Char)

theorem tokens_append_blank : tokens (a ++ ' ' :: b) = tokens a ++ tokens b :=
  tokensFrom_append (by simp [IsSeparator]) [] a b

theorem tokens_append_opening : tokens (a ++ '(' :: b) = tokens a ++ .opening :: tokens b :=
  tokensFrom_append (by simp [IsSeparator]) [] a b

theorem tokens_append_closing : tokens (a ++ ')' :: b) = tokens a ++ .closing :: tokens b :=
  tokensFrom_append (by simp [IsSeparator]) [] a b

end

/-- Text between parentheses. -/
theorem tokens_enclosed (a : List Char) :
    tokens ('(' :: (a ++ [')'])) = .opening :: (tokens a ++ [.closing]) := by
  show .opening :: tokens (a ++ [')']) = _
  rw [tokens_append_closing]
  rfl

/-- The characters of a token. -/
def Token.text : Token → List Char
  | opening => ['(']
  | closing => [')']
  | word cs => cs

/-- All characters but blanks are in the tokens. -/
theorem count_tokensFrom {c : Char} (hc : c ≠ ' ') (w cs : List Char) :
    ((tokensFrom w cs).flatMap Token.text).count c = (w ++ cs).count c := by
  have hended : ∀ w, ((ended w).flatMap Token.text).count c = w.count c := by
    intro w
    unfold ended
    split <;> simp_all [Token.text]
  induction cs generalizing w with
  | nil => simp [tokensFrom, hended]
  | cons d cs ih =>
    rw [tokensFrom]
    split_ifs with hblank hopening hclosing
    · simp [hblank, hended, ih, Ne.symm hc]
    · simp [hopening, hended, ih, Token.text, List.count_cons]
    · simp [hclosing, hended, ih, Token.text, List.count_cons]
    · simp [ih]

/-! ### Trees -/

/-- The grouping of a boolean expression. -/
inductive Tree where
  | test (ts : List Token)
  | all (parts : List Tree)
  | any (parts : List Tree)

/-- Parts in a row; one part alone stands for itself. -/
def row (join : List Tree → Tree) : List Tree → Tree
  | [t] => t
  | ts => join ts

/-- The words that join parts. -/
inductive Joiner where
  | and
  | or

namespace Joiner

def text : Joiner → List Char
  | and => "AND".toList
  | or => "OR".toList

def tree : Joiner → List Tree → Tree
  | and => .all
  | or => .any

/-- The joiner that a word is. -/
def ofWord? (cs : List Char) : Option Joiner :=
  if cs = and.text then some and else if cs = or.text then some or else none

theorem ofWord?_text (j : Joiner) : ofWord? j.text = some j := by cases j <;> rfl

end Joiner

/-- The parts of a group that have been joined: whole conjunctions, and the parts of the last
one. -/
structure Group where
  conjunctions : List Tree
  parts : List Tree

namespace Group

def empty : Group := ⟨[], []⟩

/-- A part and the word behind it. -/
def push (g : Group) (t : Tree) : Joiner → Group
  | .and => ⟨g.conjunctions, g.parts ++ [t]⟩
  | .or => ⟨g.conjunctions ++ [row .all (g.parts ++ [t])], []⟩

/-- Some parts with the same word behind each. -/
def pushAll (g : Group) (ts : List Tree) (j : Joiner) : Group := ts.foldl (fun g t => g.push t j) g

/-- The group with its last part. -/
def close (g : Group) (t : Tree) : Tree := row .any (g.conjunctions ++ [row .all (g.parts ++ [t])])

end Group

/-- What has been read of a part: nothing, a test with some parentheses open, or a group. -/
inductive Part where
  | missing
  | test (depth : Nat) (ts : List Token)
  | group (t : Tree)

/-- The tree of a part that may end here. -/
def Part.tree? : Part → Option Tree
  | test 0 ts => some (.test ts)
  | group t => some t
  | _ => none

/-- The innermost group, the groups around it and the part that is being read. -/
structure State where
  current : Group
  outer : List Group
  part : Part

/-- Reads an opening parenthesis, which behind a word belongs to a test. -/
def opened (s : State) : Option State :=
  match s.part with
  | .missing => some ⟨.empty, s.current :: s.outer, .missing⟩
  | .test depth ts => some { s with part := .test (depth + 1) (ts ++ [.opening]) }
  | .group _ => none

/-- Reads a closing parenthesis. -/
def closed (s : State) : Option State :=
  match s.part, s.outer with
  | .test (depth + 1) ts, _ => some { s with part := .test depth (ts ++ [.closing]) }
  | part, g :: outer => part.tree?.map fun t => ⟨g, outer, .group (s.current.close t)⟩
  | _, [] => none

/-- Reads a word; inside the parentheses of a test no word joins parts. -/
def worded (s : State) (cs : List Char) : Option State :=
  match s.part, Joiner.ofWord? cs with
  | .test (depth + 1) ts, _ => some { s with part := .test (depth + 1) (ts ++ [.word cs]) }
  | part, some j =>
    part.tree?.map fun t => { s with current := s.current.push t j, part := .missing }
  | .missing, none => some { s with part := .test 0 [.word cs] }
  | .test 0 ts, none => some { s with part := .test 0 (ts ++ [.word cs]) }
  | .group _, none => none

def step (s : State) : Token → Option State
  | .opening => opened s
  | .closing => closed s
  | .word cs => worded s cs

def run (s : State) (ts : List Token) : Option State := ts.foldlM step s

/-- The grouping of a text in which all groups are closed. -/
def read (cs : List Char) : Option Tree := do
  let s ← run ⟨.empty, [], .missing⟩ (tokens cs)
  match s.outer with
  | [] => s.part.tree?.map s.current.close
  | _ :: _ => none

example :
    read "a OR b AND (c OR d IN (1, 2))".toList =
      some (.any [.test (tokens "a".toList), .all [.test (tokens "b".toList),
        .any [.test (tokens "c".toList), .test (tokens "d IN (1, 2)".toList)]]]) := by
  rfl

theorem run_append (s : State) (ts us : List Token) :
    run s (ts ++ us) = (run s ts).bind (run · us) :=
  List.foldlM_append

theorem run_cons (s : State) (t : Token) (ts : List Token) :
    run s (t :: ts) = (step s t).bind (run · ts) :=
  List.foldlM_cons

/-! ### Tests -/

/-- The number of parentheses that are open behind tokens of a test, which no closing parenthesis
and, outside parentheses, no joiner ends. -/
def depthAfter : Nat → List Token → Option Nat
  | depth, [] => some depth
  | depth, .opening :: ts => depthAfter (depth + 1) ts
  | 0, .closing :: _ => none
  | depth + 1, .closing :: ts => depthAfter depth ts
  | 0, .word cs :: ts => if (Joiner.ofWord? cs).isSome then none else depthAfter 0 ts
  | depth + 1, .word _ :: ts => depthAfter (depth + 1) ts

/-- Tokens that a test may go on with. -/
def Flat (ts : List Token) : Prop := depthAfter 0 ts = some 0

instance (ts : List Token) : Decidable (Flat ts) := inferInstanceAs (Decidable (_ = _))

theorem depthAfter_append {d d' : Nat} {ts : List Token} (h : depthAfter d ts = some d')
    (us : List Token) :
    depthAfter d (ts ++ us) = depthAfter d' us := by
  induction ts generalizing d with
  | nil =>
    obtain rfl := Option.some.inj h
    rfl
  | cons t ts ih =>
    cases t with
    | opening => exact ih h
    | closing =>
      cases d with
      | zero => simp [depthAfter] at h
      | succ d => exact ih h
    | word cs =>
      cases d with
      | zero =>
        by_cases hword : (Joiner.ofWord? cs).isSome = true
        · simp [depthAfter, hword] at h
        · simp only [List.cons_append, depthAfter, if_neg hword] at h ⊢
          exact ih h
      | succ d => exact ih h

/-- Inside further parentheses a test goes on in the same way. -/
theorem depthAfter_succ {d d' : Nat} {ts : List Token} (h : depthAfter d ts = some d') :
    depthAfter (d + 1) ts = some (d' + 1) := by
  fun_induction depthAfter d ts <;> simp_all [depthAfter]

namespace Flat

variable {ts us : List Token}

theorem append (hts : Flat ts) (hus : Flat us) : Flat (ts ++ us) :=
  (depthAfter_append hts us).trans hus

theorem word {cs : List Char} (h : Joiner.ofWord? cs = none) : Flat [.word cs] := by
  simp [Flat, depthAfter, h]

theorem enclosed (hts : Flat ts) : Flat (.opening :: (ts ++ [.closing])) :=
  depthAfter_append (depthAfter_succ hts) [.closing]

end Flat

/-- A test is read as far as it goes. -/
theorem run_test {d d' : Nat} {us : List Token} (h : depthAfter d us = some d') (s : State)
    (ts : List Token) :
    run { s with part := .test d ts } us = some { s with part := .test d' (ts ++ us) } := by
  induction us generalizing d ts with
  | nil =>
    obtain rfl := Option.some.inj h
    rw [List.append_nil]
    rfl
  | cons u us ih =>
    rw [run_cons, List.append_cons]
    cases u with
    | opening => exact ih h _
    | closing =>
      cases d with
      | zero => simp [depthAfter] at h
      | succ d => exact ih h _
    | word cs =>
      cases d with
      | zero =>
        by_cases hword : (Joiner.ofWord? cs).isSome = true
        · simp [depthAfter, hword] at h
        · have hnone : Joiner.ofWord? cs = none := by simpa using hword
          have hstep : step { s with part := .test 0 ts } (.word cs) =
              some { s with part := .test 0 (ts ++ [.word cs]) } := by
            simp only [step, worded, hnone]
          rw [hstep, Option.bind_some]
          exact ih (by simpa only [depthAfter, if_neg hword] using h) _
      | succ d => exact ih h _

/-- The tokens read as the tree where a part is expected. -/
def Reads (ts : List Token) (t : Tree) : Prop :=
  ∀ s : State, s.part = .missing → ∃ p : Part, run s ts = some { s with part := p } ∧
  p.tree? = some t

/-- A test begins with a word and is read to its end. -/
theorem reads_test {cs : List Char} {ts : List Token} (h : Flat (.word cs :: ts)) :
    Reads (.word cs :: ts) (.test (.word cs :: ts)) := by
  intro s hs
  have hword : Joiner.ofWord? cs = none := by
    by_contra hword
    simp [Flat, depthAfter, Option.isSome_iff_ne_none, hword] at h
  have htail : depthAfter 0 ts = some 0 := by simpa [Flat, depthAfter, hword] using h
  refine ⟨.test 0 (.word cs :: ts), ?_, rfl⟩
  rw [run_cons]
  simp only [step, worded, hs, hword, Option.bind_some]
  exact run_test htail s [.word cs]

/-! ### Groups -/

/-- Parts in a row with a joiner between them. -/
def joined (j : Joiner) : List (List Token) → List Token
  | [] => []
  | [ts] => ts
  | ts :: more => ts ++ .word j.text :: joined j more

theorem step_joiner {s : State} {p : Part} {t : Tree} (hp : p.tree? = some t) (j : Joiner) :
    step { s with part := p } (.word j.text) =
      some { s with current := s.current.push t j, part := .missing } := by
  have hword := Joiner.ofWord?_text j
  cases p with
  | missing => simp [Part.tree?] at hp
  | test depth ts =>
    cases depth with
    | zero => simp [step, worded, hword, hp]
    | succ depth => simp [Part.tree?] at hp
  | group t => simp [step, worded, hword, hp]

/-- Joined parts are read up to the last one. -/
theorem run_joined (j : Joiner) {parts : List (List Token × Tree)} (hne : parts ≠ [])
    (hparts : ∀ p ∈ parts, Reads p.1 p.2) {s : State} (hs : s.part = .missing) :
    ∃ trees t p, parts.map Prod.snd = trees ++ [t] ∧ p.tree? = some t ∧
      run s (joined j (parts.map Prod.fst)) =
        some { s with current := s.current.pushAll trees j, part := p } := by
  induction parts generalizing s with
  | nil => exact absurd rfl hne
  | cons part parts ih =>
    obtain ⟨hpart, hparts⟩ := List.forall_mem_cons.1 hparts
    obtain ⟨p, hrun, hp⟩ := hpart s hs
    cases parts with
    | nil => exact ⟨[], part.2, p, rfl, hp, hrun⟩
    | cons next parts =>
      let s' : State := { s with current := s.current.push part.2 j, part := .missing }
      obtain ⟨trees, t, p', htrees, hp', hrun'⟩ := ih (by simp) hparts (s := s') rfl
      refine ⟨part.2 :: trees, t, p', by rw [List.map_cons, htrees, List.cons_append], hp', ?_⟩
      show run s (part.1 ++ .word j.text :: joined j ((next :: parts).map Prod.fst)) = _
      rw [run_append, hrun, Option.bind_some, run_cons, step_joiner hp, Option.bind_some, hrun']
      rfl

namespace Group

theorem pushAll_and (g : Group) (ts : List Tree) :
    g.pushAll ts .and = ⟨g.conjunctions, g.parts ++ ts⟩ := by
  unfold pushAll
  induction ts generalizing g with
  | nil => simp
  | cons t ts ih =>
    rw [List.foldl_cons, ih]
    simp [push]

theorem pushAll_or (conjunctions ts : List Tree) :
    pushAll ⟨conjunctions, []⟩ ts .or = ⟨conjunctions ++ ts, []⟩ := by
  unfold pushAll
  induction ts generalizing conjunctions with
  | nil => simp
  | cons t ts ih =>
    have hpush : push ⟨conjunctions, []⟩ t .or = ⟨conjunctions ++ [t], []⟩ := rfl
    rw [List.foldl_cons, hpush, ih]
    simp

/-- A group closes with all its parts. -/
theorem close_pushAll (j : Joiner) (ts : List Tree) (t : Tree) :
    (empty.pushAll ts j).close t = row j.tree (ts ++ [t]) := by
  cases j with
  | and => rw [pushAll_and]; rfl
  | or => rw [empty, pushAll_or]; rfl

end Group

theorem row_of_two_le (join : List Tree → Tree) {ts : List Tree} (h : 2 ≤ ts.length) :
    row join ts = join ts := by
  rcases ts with _ | ⟨t, _ | ⟨t', ts⟩⟩
  · simp at h
  · simp at h
  · rfl

theorem closed_of_tree? {g : Group} {s : State} {p : Part} {t : Tree} (hp : p.tree? = some t) :
    closed ⟨g, s.current :: s.outer, p⟩ = some { s with part := .group (g.close t) } := by
  cases p with
  | missing => simp [Part.tree?] at hp
  | test depth ts =>
    cases depth with
    | zero => simp [closed, hp]
    | succ depth => simp [Part.tree?] at hp
  | group t => simp [closed, hp]

/-- Joined parts in parentheses read as their group. -/
theorem reads_group (j : Joiner) {parts : List (List Token × Tree)} (hlength : 2 ≤ parts.length)
    (hparts : ∀ p ∈ parts, Reads p.1 p.2) :
    Reads (.opening :: (joined j (parts.map Prod.fst) ++ [.closing]))
      (j.tree (parts.map Prod.snd)) := by
  intro s hs
  have hne : parts ≠ [] := List.ne_nil_of_length_pos (by omega)
  obtain ⟨trees, t, p, htrees, hp, hrun⟩ :=
    run_joined j hne hparts (s := ⟨.empty, s.current :: s.outer, .missing⟩) rfl
  have hopened : step s .opening = some ⟨.empty, s.current :: s.outer, .missing⟩ := by
    simp [step, opened, hs]
  have hclosed : step ⟨Group.empty.pushAll trees j, s.current :: s.outer, p⟩ .closing =
      some { s with part := .group (j.tree (parts.map Prod.snd)) } := by
    rw [step, closed_of_tree? hp, Group.close_pushAll, ← htrees,
      row_of_two_le _ (by simpa using hlength)]
  refine ⟨.group (j.tree (parts.map Prod.snd)), ?_, rfl⟩
  rw [run_cons, hopened, Option.bind_some, run_append, hrun, Option.bind_some, run_cons, hclosed]
  rfl

/-- What reads as a tree where a part is expected reads as this tree alone. -/
theorem read_of_reads {cs : List Char} {t : Tree} (h : Reads (tokens cs) t) : read cs = some t := by
  obtain ⟨p, hrun, hp⟩ := h ⟨.empty, [], .missing⟩ rfl
  have hclose : Group.empty.close t = t := rfl
  simp [read, hrun, hp, hclose]

end Kanban.Filter.Reader
