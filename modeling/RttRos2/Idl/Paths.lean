/-
  RttRos2.Idl.Paths — members of members.

  A script names a part of a message by a path. Its names are looked up one after the other
  with the `getMember` of the type found so far, and each part is built at an address
  inside of the one before it, so that assigning the part assigns the message.

  `paths_independent`: the part a path leads to lies within the message, and of two paths
  neither of which begins with the other, writing to one part is not seen in the other.

  Of the tables it is assumed that they describe structs (`Laid`): the members of a message
  lie within it, one beside the other. A name that is not in the table ends the path here.
-/

import RttRos2.Idl.Members

namespace RttRos2.Idl

variable {TI : Type} {types : Types TI} {tables : TI → Option MessageMembers} {width : TI → Int → Nat}
  {ti : TI} {copy p : Nat} {size : Int}

/-- What `buildPart` builds. -/
structure Part (TI : Type) where
  ti : TI
  address : Nat
  size : Int
  deriving DecidableEq, Repr

/-- The part of the assignable message at `p` that the path names. The types with a table
    are those with a `RosIntrospectionTypeInfo`. -/
def access (types : Types TI) (tables : TI → Option MessageMembers) (copy : Nat) (ti : TI) (p : Nat) (size : Int) :
    List String → Option (Part TI)
  | [] => some ⟨ti, p, size⟩
  | name :: path =>
    match tables ti with
    | none => none
    | some ms =>
      match getMember types (some ms) (.assignable p) copy name with
      | .part ti' address size' _ => access types tables copy ti' address size' path
      | .null | .undefined => none

/-! ## Structs -/

/-- The bytes of a part; `width` is the size of a value. -/
def Part.stop (width : TI → Int → Nat) (q : Part TI) : Nat := q.address + width q.ti q.size

/-- No byte belongs to both. -/
def Part.Apart (width : TI → Int → Nat) (q r : Part TI) : Prop := q.stop width ≤ r.address ∨ r.stop width ≤ q.address

def Part.Within (width : TI → Int → Nat) (q r : Part TI) : Prop := r.address ≤ q.address ∧ q.stop width ≤ r.stop width

instance (width : TI → Int → Nat) (q r : Part TI) : Decidable (q.Apart width r) :=
  inferInstanceAs (Decidable (_ ∨ _))

instance (width : TI → Int → Nat) (q r : Part TI) : Decidable (q.Within width r) :=
  inferInstanceAs (Decidable (_ ∧ _))

/-- The part of the member, in a message at `p`. -/
def MessageMember.part (m : MessageMember) (p : Nat) (t : TI) : Part TI := ⟨t, p + m.offset, toInt m.arraySize⟩

def MessageMember.Beside (types : Types TI) (width : TI → Int → Nat) (m m' : MessageMember) : Prop :=
  ∀ t t', m.typeInfo types = some t → m'.typeInfo types = some t' → (m.part 0 t).Apart width (m'.part 0 t')

/-- The tables describe structs. -/
structure Laid (types : Types TI) (tables : TI → Option MessageMembers) (width : TI → Int → Nat) : Prop where
  /-- The size of a message is that of its struct. -/
  whole : ∀ ti ms size, tables ti = some ms → width ti size = width ti 0
  inside : ∀ ti ms, tables ti = some ms → ∀ m ∈ ms, ∀ t, m.typeInfo types = some t →
    (m.part 0 t).Within width ⟨ti, 0, 0⟩
  beside : ∀ ti ms, tables ti = some ms → ms.Pairwise (MessageMember.Beside types width)

theorem Part.Within.trans {q r u : Part TI} (h : q.Within width r) (h' : r.Within width u) : q.Within width u :=
  ⟨Nat.le_trans h'.1 h.1, Nat.le_trans h.2 h'.2⟩

theorem Part.Apart.within {q r q' r' : Part TI} (h : q.Apart width r) (hq : q'.Within width q)
    (hr : r'.Within width r) : q'.Apart width r' := by
  rcases h with h | h
  · exact Or.inl (Nat.le_trans hq.2 (Nat.le_trans h hr.1))
  · exact Or.inr (Nat.le_trans hr.2 (Nat.le_trans h hq.1))

theorem Part.Apart.symm {q r : Part TI} (h : q.Apart width r) : r.Apart width q := Or.symm h

/-- The first name of a path, and the rest. -/
theorem access_cons {name : String} {path : List String} {q : Part TI}
    (h : access types tables copy ti p size (name :: path) = some q) :
    ∃ ms m t, tables ti = some ms ∧ member ms name = some m ∧ m.typeInfo types = some t ∧
      access types tables copy t (p + m.offset) (toInt m.arraySize) path = some q := by
  unfold access at h
  cases hms : tables ti with
  | none => simp [hms] at h
  | some ms =>
    simp only [hms] at h
    cases hm : member ms name with
    | none => simp [getMember_absent hm] at h
    | some m =>
      cases ht : m.typeInfo types with
      | none =>
        have hnull : getMember types (some ms) (.assignable p) copy name = .null := by
          simp only [getMember, findMessageMember, Option.map_some, Option.getD_some, getElem_findIdx, hm,
            findTypeInfo_eq, ht]
        simp [hnull] at h
      | some t =>
        rw [getMember_listed hm ht rfl] at h
        exact ⟨ms, m, t, rfl, hm, ht, h⟩

/-- In a message anywhere else, the members are moved along with it. -/
theorem Laid.member_inside (hl : Laid types tables width) {ms : MessageMembers} {name : String} {m : MessageMember}
    {t : TI} (hms : tables ti = some ms) (hm : member ms name = some m) (ht : m.typeInfo types = some t) :
    (m.part p t).Within width ⟨ti, p, size⟩ := by
  have h := (hl.inside ti ms hms m (List.mem_of_find?_eq_some hm) t ht).2
  simp only [Part.stop, MessageMember.part, Nat.zero_add] at h
  refine ⟨Nat.le_add_right _ _, ?_⟩
  simp only [Part.stop, MessageMember.part]
  rw [hl.whole ti ms size hms]
  omega

theorem Laid.members_apart (hl : Laid types tables width) {ms : MessageMembers} {name name' : String}
    {m m' : MessageMember} {t t' : TI} (hms : tables ti = some ms) (hne : name ≠ name')
    (hm : member ms name = some m) (hm' : member ms name' = some m') (ht : m.typeInfo types = some t)
    (ht' : m'.typeInfo types = some t') : (m.part p t).Apart width (m'.part p t') := by
  have hname : m.name = name := by simpa using List.find?_some hm
  have hname' : m'.name = name' := by simpa using List.find?_some hm'
  have hmm : m ≠ m' := fun h => hne (hname ▸ hname' ▸ congrArg MessageMember.name h)
  have hall : ∀ a ∈ ms, ∀ b ∈ ms, a ≠ b → a.Beside types width b := by
    have h := hl.beside ti ms hms
    have hr : ms.Pairwise fun a b => a ≠ b → a.Beside types width b := by
      refine h.imp ?_
      intro a b hab _
      exact hab
    have hflip : ms.Pairwise (flip fun a b => a ≠ b → a.Beside types width b) := by
      refine h.imp ?_
      intro a b hab _ t t' ht ht'
      exact (hab t' t ht' ht).symm
    intro a ha b hb
    exact List.Pairwise.forall_of_forall_of_flip (fun a _ hn => absurd rfl hn) hr hflip ha hb
  have h := hall m (List.mem_of_find?_eq_some hm) m' (List.mem_of_find?_eq_some hm') hmm t t' ht ht'
  simp only [Part.Apart, Part.stop, MessageMember.part, Nat.zero_add] at h ⊢
  omega

/-! ## Paths -/

theorem part_within (hl : Laid types tables width) {path : List String} {q : Part TI}
    (h : access types tables copy ti p size path = some q) : q.Within width ⟨ti, p, size⟩ := by
  induction path generalizing ti p size with
  | nil =>
    cases h
    exact ⟨Nat.le_refl _, Nat.le_refl _⟩
  | cons name path ih =>
    obtain ⟨ms, m, t, hms, hm, ht, h⟩ := access_cons h
    exact (ih h).trans (hl.member_inside hms hm ht)

/-- Two paths part at a name, and there the members are beside each other. -/
theorem parts_apart (hl : Laid types tables width) {xs ys : List String} {q r : Part TI}
    (hx : access types tables copy ti p size xs = some q) (hy : access types tables copy ti p size ys = some r)
    (hxy : ¬ xs <+: ys) (hyx : ¬ ys <+: xs) : q.Apart width r := by
  induction xs generalizing ti p size ys with
  | nil => exact absurd (List.nil_prefix) hxy
  | cons x xs ih =>
    cases ys with
    | nil => exact absurd (List.nil_prefix) hyx
    | cons y ys =>
      obtain ⟨ms, m, t, hms, hm, ht, hx⟩ := access_cons hx
      obtain ⟨ms', m', t', hms', hm', ht', hy⟩ := access_cons hy
      cases hms.symm.trans hms'
      by_cases hn : x = y
      · subst hn
        cases hm.symm.trans hm'
        cases ht.symm.trans ht'
        rw [List.prefix_cons_inj] at hxy hyx
        exact ih hx hy hxy hyx
      · exact (hl.members_apart hms hn hm hm' ht ht').within (part_within hl hx) (part_within hl hy)

/-! ## Values -/

abbrev Memory := Nat → UInt8

def Part.read (width : TI → Int → Nat) (q : Part TI) (mem : Memory) : List UInt8 :=
  (List.range (width q.ti q.size)).map fun i => mem (q.address + i)

/-- Assigns to the part. -/
def Part.write (width : TI → Int → Nat) (q : Part TI) (mem : Memory) (value : Nat → UInt8) : Memory :=
  fun a => if q.address ≤ a ∧ a < q.stop width then value (a - q.address) else mem a

theorem read_write {q : Part TI} (mem : Memory) (value : Nat → UInt8) :
    q.read width (q.write width mem value) = (List.range (width q.ti q.size)).map value := by
  refine List.map_congr_left fun i hi => ?_
  have hlt := List.mem_range.mp hi
  have hin : q.address ≤ q.address + i ∧ q.address + i < q.stop width := by
    unfold Part.stop
    omega
  simp only [Part.write, if_pos hin, Nat.add_sub_cancel_left]

theorem read_write_apart {q r : Part TI} (h : q.Apart width r) (mem : Memory) (value : Nat → UInt8) :
    r.read width (q.write width mem value) = r.read width mem := by
  refine List.map_congr_left fun i hi => ?_
  have hlt := List.mem_range.mp hi
  have hout : ¬ (q.address ≤ r.address + i ∧ r.address + i < q.stop width) := by
    unfold Part.Apart Part.stop at h
    unfold Part.stop
    omega
  simp only [Part.write, if_neg hout]

/-- Of the parts `q` and `r` of a message: `q` is inside, holds what is assigned to it, and
    the assignment leaves `r` as it is. -/
structure Independent (width : TI → Int → Nat) (message q r : Part TI) : Prop where
  inside : q.Within width message
  assigned : ∀ mem value, q.read width (q.write width mem value) = (List.range (width q.ti q.size)).map value
  other : ∀ mem value, r.read width (q.write width mem value) = r.read width mem

theorem paths_independent (types : Types TI) (tables : TI → Option MessageMembers) (width : TI → Int → Nat)
    (hl : Laid types tables width) (copy : Nat) (ti : TI) (p : Nat) (size : Int) (xs ys : List String) (q r : Part TI)
    (hx : access types tables copy ti p size xs = some q) (hy : access types tables copy ti p size ys = some r)
    (hxy : ¬ xs <+: ys) (hyx : ¬ ys <+: xs) : Independent width ⟨ti, p, size⟩ q r where
  inside := part_within hl hx
  assigned := read_write
  other := read_write_apart (parts_apart hl hx hy hxy hyx)

/-- A message with a time and, in it, a point. -/
def stamped : MessageMembers :=
  [double "stamp" 0, ⟨"position", .message, some ⟨"geometry::msg", "Point"⟩, false, 0, false, 8⟩]

def stampedTables : CppType ⊕ String → Option MessageMembers
  | .inl _ => none
  | .inr name => if name = "Stamped" then some stamped else if name = "/geometry/msg/Point" then some point else none

def stampedWidth : CppType ⊕ String → Int → Nat
  | .inl _, _ => 8
  | .inr name, _ => if name = "Stamped" then 32 else if name = "/geometry/msg/Point" then 24 else 0

theorem stamped_laid : Laid everyType stampedTables stampedWidth := by
  have htable : ∀ ti ms, stampedTables ti = some ms →
      ti = .inr "Stamped" ∧ ms = stamped ∨ ti = .inr "/geometry/msg/Point" ∧ ms = point := by
    intro ti ms h
    cases ti with
    | inl t => cases h
    | inr name =>
      simp only [stampedTables] at h
      split at h
      · rename_i hn
        cases h
        exact Or.inl ⟨congrArg _ hn, rfl⟩
      · split at h
        · rename_i hn
          cases h
          exact Or.inr ⟨congrArg _ hn, rfl⟩
        · cases h
  refine ⟨?_, ?_, ?_⟩
  · intro ti ms size h
    rcases htable ti ms h with ⟨rfl, -⟩ | ⟨rfl, -⟩ <;> rfl
  · intro ti ms h m hm t ht
    rcases htable ti ms h with ⟨rfl, rfl⟩ | ⟨rfl, rfl⟩
    · simp only [stamped, List.mem_cons, List.not_mem_nil, or_false] at hm
      rcases hm with rfl | rfl <;> cases ht <;> decide
    · simp only [point, List.mem_cons, List.not_mem_nil, or_false] at hm
      rcases hm with rfl | rfl | rfl <;> cases ht <;> decide
  · intro ti ms h
    rcases htable ti ms h with ⟨rfl, rfl⟩ | ⟨rfl, rfl⟩
    · refine .cons (fun m hm => ?_) (.cons (fun m hm => absurd hm List.not_mem_nil) .nil)
      cases List.mem_singleton.mp hm
      rintro t t' ⟨⟩ ⟨⟩
      decide
    · refine .cons (fun m hm => ?_) (.cons (fun m hm => ?_) (.cons (fun m hm => absurd hm List.not_mem_nil) .nil))
      · simp only [List.mem_cons, List.not_mem_nil, or_false] at hm
        rcases hm with rfl | rfl <;> rintro t t' ⟨⟩ ⟨⟩ <;> decide
      · cases List.mem_singleton.mp hm
        rintro t t' ⟨⟩ ⟨⟩
        decide

/-- The coordinate y is at 8 + 8, and assigning it does not change the time. -/
theorem paths_independent_stamped :
    Independent stampedWidth ⟨.inr "Stamped", 64, 0⟩ ⟨.inl (.value .double), 80, 0⟩ ⟨.inl (.value .double), 64, 0⟩ := by
  have hy : access everyType stampedTables 0 (.inr "Stamped") 64 0 ["position", "y"] =
      some ⟨.inl (.value .double), 80, 0⟩ := by decide +kernel
  have hstamp : access everyType stampedTables 0 (.inr "Stamped") 64 0 ["stamp"] =
      some ⟨.inl (.value .double), 64, 0⟩ := by decide +kernel
  exact paths_independent everyType stampedTables stampedWidth stamped_laid 0 _ 64 0 _ _ _ _ hy hstamp
    (by decide) (by decide)

end RttRos2.Idl
