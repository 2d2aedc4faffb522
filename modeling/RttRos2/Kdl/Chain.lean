/-
  RttRos2.Kdl.Chain — the round trip of a kinematic chain through a property bag.

  The bag into which the segments are written is not emptied from one segment to the
  next, so the bag of segment i holds the joints and frames of the segments up to i, and
  a lookup by name finds those of the first. A chain is read back with as many segments,
  all of them the first one (`composeProperty_first`): the second is lost
  (`second_segment_is_lost`), and the round trip works for the chains whose segments
  have one joint type and one frame (`chain_round_trips_iff`).
-/

import RttRos2.Kdl.Kinfam
import Mathlib.Algebra.Ring.Int.Defs

namespace RttRos2.Kdl.Chain

variable {D : Type}

/-! ## What is written -/

/-- The bags of the segments, one after the other. -/
def segmentBags (kdl : Library D) : List (Segment D) → PropertyBag D → List (PropertyBag D)
  | [], _ => []
  | s :: rest, segmentBag =>
    s.decomposeProperty kdl segmentBag :: segmentBags kdl rest (s.decomposeProperty kdl segmentBag)

theorem length_segmentBags (kdl : Library D) (chain : List (Segment D)) (segmentBag : PropertyBag D) :
    (segmentBags kdl chain segmentBag).length = chain.length := by
  induction chain generalizing segmentBag with
  | nil => rfl
  | cons s rest ih => simp [segmentBags, ih]

theorem decomposeSegments_eq (kdl : Library D) (chain : List (Segment D)) (segmentBag targetbag : PropertyBag D) :
    decomposeSegments kdl chain segmentBag targetbag =
      { targetbag with properties := targetbag.properties ++
          (segmentBags kdl chain segmentBag).map fun b => ⟨"Segment", "Segment of the chain", .bag b⟩ } := by
  induction chain generalizing segmentBag targetbag with
  | nil => simp [decomposeSegments, segmentBags]
  | cons s rest ih => simp [decomposeSegments, segmentBags, ih, PropertyBag.add]

/-- A lookup finds the joint and the frame of `s`. -/
structure Shows (kdl : Library D) (s : Segment D) (segmentBag : PropertyBag D) : Prop where
  type : segmentBag.type = "KDL.Segment"
  joint : segmentBag.getPropertyType Value.asBag "joint" = some (s.joint.decomposeProperty kdl PropertyBag.empty)
  frame : segmentBag.getPropertyType Value.asBag "frame" = some (s.frameToTip.decomposeProperty kdl PropertyBag.empty)

theorem shows_first (kdl : Library D) (s : Segment D) : Shows kdl s (s.decomposeProperty kdl PropertyBag.empty) where
  type := rfl
  joint := PropertyBag.getPropertyType_add_of_some (PropertyBag.getPropertyType_add_of_none rfl rfl)
  frame := PropertyBag.getPropertyType_add_of_none (PropertyBag.getPropertyType_add_of_ne (by decide)) rfl

/-- A later segment is added behind it. -/
theorem Shows.add {kdl : Library D} {s : Segment D} {segmentBag : PropertyBag D} (h : Shows kdl s segmentBag)
    (s' : Segment D) : Shows kdl s (s'.decomposeProperty kdl segmentBag) where
  type := rfl
  joint := PropertyBag.getPropertyType_add_of_some (PropertyBag.getPropertyType_add_of_some h.joint)
  frame := PropertyBag.getPropertyType_add_of_some (PropertyBag.getPropertyType_add_of_some h.frame)

theorem Shows.segmentBags {kdl : Library D} {s : Segment D} {segmentBag : PropertyBag D} (h : Shows kdl s segmentBag)
    (rest : List (Segment D)) : ∀ b ∈ segmentBags kdl rest segmentBag, Shows kdl s b := by
  induction rest generalizing segmentBag with
  | nil => intro b hb; cases hb
  | cons s' rest ih =>
    intro b hb
    rcases List.mem_cons.mp hb with rfl | hb
    · exact h.add s'
    · exact ih (h.add s') b hb

/-! ## What is read -/

variable [Zero D] [One D]

theorem composeSegments_bags {kdl : Library D} {bags : List (PropertyBag D)} {s : Segment D}
    (h : ∀ b ∈ bags, (Segment.composeProperty kdl b Segment.default).2 = s) (chainNew : Chain D) :
    composeSegments kdl (bags.map fun b => ⟨"Segment", "Segment of the chain", .bag b⟩) chainNew =
      some (chainNew ++ List.replicate bags.length s) := by
  induction bags generalizing chainNew with
  | nil => simp [composeSegments]
  | cons b bags ih =>
    have hb : (composeType (Segment.composeProperty kdl) (.bag b) Segment.default).2 = s := h b List.mem_cons_self
    have hrest := ih (fun b hb => h b (List.mem_cons_of_mem _ hb)) (chainNew ++ [s])
    simp only [List.map_cons, composeSegments, Value.ready, if_true, hb, hrest]
    simp [List.replicate_succ]

/-- The segment that is read where `s` is shown. -/
def read (s : Segment D) : Segment D := ⟨Joint.ofType s.joint.type, s.frameToTip⟩

theorem Shows.composeProperty {kdl : Library D} {s : Segment D} {segmentBag : PropertyBag D}
    (h : Shows kdl s segmentBag) (hjoint : s.joint.Coordinate) (hframe : kdl.Exact s.frameToTip.M) (res : Segment D) :
    Segment.composeProperty kdl segmentBag res = (true, read s) := by
  have hj := Joint.composeProperty_decomposeProperty kdl hjoint (Joint.ofType .none)
  have hf := Frame.composeProperty_decomposeProperty hframe Frame.identity
  simp only [Segment.composeProperty, h.type, h.joint, h.frame, if_true, composeType, Value.asBag, hj, hf, read]

/-- Every segment is read as the first one. -/
theorem composeProperty_first {kdl : Library D} {first : Segment D} (rest : List (Segment D))
    (hjoint : first.joint.Coordinate) (hframe : kdl.Exact first.frameToTip.M) (target : Chain D) :
    composeProperty kdl (decomposeProperty kdl (first :: rest) PropertyBag.empty) target =
      (true, List.replicate (rest.length + 1) (read first)) := by
  have hshows : ∀ b ∈ segmentBags kdl (first :: rest) PropertyBag.empty, Shows kdl first b := by
    intro b hb
    rcases List.mem_cons.mp hb with rfl | hb
    · exact shows_first kdl first
    · exact (shows_first kdl first).segmentBags rest b hb
  have hread := composeSegments_bags
    (fun b hb => congrArg Prod.snd ((hshows b hb).composeProperty hjoint hframe Segment.default)) []
  rw [length_segmentBags] at hread
  simp only [composeProperty, decomposeProperty, decomposeSegments_eq]
  simp only [PropertyBag.type_setType, PropertyBag.properties_setType, PropertyBag.empty, List.nil_append,
    if_true] at hread ⊢
  rw [hread]
  rfl

/-! ## The round trip -/

/-- As many segments, each with the joint type and the frame to tip of the original. -/
structure Alike (original chain : Chain D) : Prop where
  length : chain.length = original.length
  segments : ∀ (i : Nat) (s s' : Segment D), original[i]? = some s → chain[i]? = some s' →
    s'.joint.type = s.joint.type ∧ s'.frameToTip = s.frameToTip

/-- The bag of the chain is read, and as the chain. -/
def RoundTrips (kdl : Library D) (chain : Chain D) : Prop :=
  ∀ target, ∃ out, composeProperty kdl (decomposeProperty kdl chain PropertyBag.empty) target = (true, out) ∧
    Alike chain out

/-- Translations only: every rotation is the identity. -/
def translations : Library Int where
  rpy _ _ _ := Rotation.identity
  getRPY _ := (0, 0, 0)
  eulerZYX _ _ _ := Rotation.identity
  noneName := "None"

def segment (type : JointType) (z : Int) : Segment Int := ⟨Joint.ofType type, ⟨0, 0, z⟩, Rotation.identity⟩

/-- The joints RotX and RotZ are read as RotX and RotX. -/
theorem second_segment_is_lost :
    let chain := [segment .rotX 1, segment .rotZ 2]
    (∀ s ∈ chain, s.joint.Coordinate ∧ translations.Exact s.frameToTip.M) ∧ ¬ RoundTrips translations chain := by
  refine ⟨by decide, fun h => ?_⟩
  obtain ⟨out, hout, hlike⟩ := h []
  have hread : composeProperty translations
      (decomposeProperty translations [segment .rotX 1, segment .rotZ 2] PropertyBag.empty) [] =
      (true, [segment .rotX 1, segment .rotX 1]) := rfl
  cases hread.symm.trans hout
  cases (hlike.segments 1 _ _ rfl rfl).1

theorem alike_replicate {first : Segment D} {chain : Chain D} :
    Alike chain (List.replicate chain.length (read first)) ↔
      ∀ s ∈ chain, s.joint.type = first.joint.type ∧ s.frameToTip = first.frameToTip := by
  constructor
  · intro h s hs
    obtain ⟨i, hi, hget⟩ := List.getElem_of_mem hs
    have hsame := h.segments i s (read first) (by simp [hi, hget]) (by simp [hi])
    exact ⟨hsame.1.symm, hsame.2.symm⟩
  · intro h
    refine ⟨by simp, fun i s s' hs hs' => ?_⟩
    have hall := h s (List.mem_of_getElem? hs)
    have hs' := List.eq_of_mem_replicate (List.mem_of_getElem? hs')
    subst hs'
    exact ⟨hall.1.symm, hall.2.symm⟩

/-- The round trip works when, and only when, every segment has the joint type and the frame of the first. -/
theorem chain_round_trips_iff (kdl : Library D) (chain : Chain D)
    (hjoint : ∀ s ∈ chain, s.joint.Coordinate) (hframe : ∀ s ∈ chain, kdl.Exact s.frameToTip.M) :
    RoundTrips kdl chain ↔
      ∀ first ∈ chain.head?, ∀ s ∈ chain,
        s.joint.type = first.joint.type ∧ s.frameToTip = first.frameToTip := by
  cases chain with
  | nil =>
    constructor
    · intro _ first hfirst
      cases hfirst
    · intro _ target
      refine ⟨[], rfl, rfl, ?_⟩
      intro i s s' hs
      cases hs
  | cons first rest =>
    have hread := composeProperty_first rest (hjoint first List.mem_cons_self) (hframe first List.mem_cons_self)
    have hhead : (∀ f ∈ (first :: rest).head?, ∀ s ∈ first :: rest,
        s.joint.type = f.joint.type ∧ s.frameToTip = f.frameToTip) ↔
        ∀ s ∈ first :: rest, s.joint.type = first.joint.type ∧ s.frameToTip = first.frameToTip := by
      simp
    rw [hhead, ← alike_replicate]
    constructor
    · intro h
      obtain ⟨out, hout, hlike⟩ := h []
      cases (hread []).symm.trans hout
      exact hlike
    · intro hlike target
      exact ⟨_, hread target, hlike⟩

/-- Two equal segments. -/
theorem chain_round_trips_iff_equal : RoundTrips translations [segment .rotX 1, segment .rotX 1] :=
  (chain_round_trips_iff translations [segment .rotX 1, segment .rotX 1] (by decide) (by decide)).mpr (by decide)

end RttRos2.Kdl.Chain
