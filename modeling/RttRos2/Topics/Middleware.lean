/-
  RttRos2.Topics.Middleware — what lies between the publisher of a topic and its
  subscriptions.

  rclcpp and what is below it are a parameter. `Middleware` is what they do when a
  publisher is created, a subscription finds it, a sample is published, or an executor asks
  for the next sample of a subscription; `work` is whatever they do in between, and when.
  `Carrier` is a middleware at work, next to what has passed through it.

  `Middleware.Documented` is what the results of Topics.Delivery rely on. In any run
  - a subscription gets samples in the order they were published, each at most once;
  and, where the QoS of the publisher and the subscription match (`Middleware.Matches`),
  - once nothing is under way to it, the last sample it got is the last one published, if
    that was published since it found the publisher or it is transient local;
  - when no more samples wait than both depths allow (`HasRoom`), it misses none of those
    published since; a transient local one gets the last ones before that as well.
-/

import Mathlib.Data.List.DropRight
import Mathlib.Data.List.Infix
import RttRos2.Topics.Transport

namespace RttRos2.Topics

open RttRos2.Lib RttRos2.Node

/-- The middleware, for one topic with one publisher. -/
structure Middleware (T : Type) where
  State : Type
  /-- The topic that a node means by a name. -/
  resolve : RosNode → List Char → List Char
  createPublisher : Endpoint → State
  /-- A subscription has been created, and has found the publisher. -/
  connect : State → Nat → Endpoint → State
  publish : State → T → State
  work : State → Nat → State
  /-- The next sample for a subscription. -/
  take : State → Nat → Option (T × State)

variable {T : Type}

structure Carrier (mw : Middleware T) where
  state : mw.State
  published : List T
  /-- How many samples had been published when the subscription found the publisher. -/
  joined : Nat → Option Nat
  taken : Nat → List T

namespace Carrier

variable {mw : Middleware T}

def init (mw : Middleware T) (publisher : Endpoint) : Carrier mw :=
  ⟨mw.createPublisher publisher, [], fun _ => none, fun _ => []⟩

def publish (c : Carrier mw) (x : T) : Carrier mw :=
  { c with state := mw.publish c.state x, published := c.published ++ [x] }

def connect (c : Carrier mw) (i : Nat) (subscription : Endpoint) : Option (Carrier mw) :=
  match c.joined i with
  | none => some { c with
      state := mw.connect c.state i subscription
      joined := Function.update c.joined i (some c.published.length) }
  | some _ => none

def work (c : Carrier mw) (w : Nat) : Carrier mw := { c with state := mw.work c.state w }

def take (c : Carrier mw) (i : Nat) : Option (T × Carrier mw) :=
  match c.joined i, mw.take c.state i with
  | some _, some (x, state) =>
    some (x, { c with state := state, taken := Function.update c.taken i (c.taken i ++ [x]) })
  | _, _ => none

inductive Ev (T : Type) where
  | publish (x : T)
  | connect (i : Nat)
  | work (w : Nat)
  | take (i : Nat)

def step (subscription : Nat → Endpoint) (c : Carrier mw) : Ev T → Option (Carrier mw)
  | .publish x => some (c.publish x)
  | .connect i => c.connect i (subscription i)
  | .work w => some (c.work w)
  | .take i => (c.take i).map Prod.snd

theorem connect_some {c d : Carrier mw} {i : Nat} {subscription : Endpoint} (h : c.connect i subscription = some d) :
    c.joined i = none ∧ d = { c with
      state := mw.connect c.state i subscription
      joined := Function.update c.joined i (some c.published.length) } := by
  unfold connect at h
  split at h
  · rename_i hj
    cases h
    exact ⟨hj, rfl⟩
  · cases h

theorem take_some {c d : Carrier mw} {i : Nat} {x : T} (h : c.take i = some (x, d)) :
    ∃ k state, c.joined i = some k ∧ mw.take c.state i = some (x, state) ∧
      d = { c with state := state, taken := Function.update c.taken i (c.taken i ++ [x]) } := by
  unfold take at h
  split at h
  · rename_i k y state hj hx
    cases h
    exact ⟨k, state, hj, hx, rfl⟩
  · cases h

theorem joined_le {publisher : Endpoint} {subscription : Nat → Endpoint} {ok : Carrier mw → Ev T → Prop}
    {c : Carrier mw} {i k : Nat} (h : Path (step subscription) ok (.init mw publisher) c) (hk : c.joined i = some k) :
    k ≤ c.published.length := by
  suffices ∀ k, c.joined i = some k → k ≤ c.published.length from this k hk
  refine h.invariant (P := fun c => ∀ k, c.joined i = some k → k ≤ c.published.length) (fun k hk => by cases hk) ?_
  intro c d ev hc _ hs k hk
  cases ev with
  | publish x =>
    cases hs
    rw [publish, List.length_append]
    exact Nat.le_add_right_of_le (hc k hk)
  | connect j =>
    obtain ⟨-, rfl⟩ := connect_some hs
    by_cases hij : i = j
    · subst hij
      simp only [Function.update_self, Option.some.injEq] at hk
      exact hk ▸ Nat.le_refl _
    · exact hc k (by simpa [hij] using hk)
  | work w =>
    cases hs
    exact hc k hk
  | take j =>
    obtain ⟨⟨x, d⟩, ht, rfl⟩ := Option.map_eq_some_iff.mp hs
    obtain ⟨_, state, -, -, rfl⟩ := take_some ht
    exact hc k hk

/-- Whatever the middleware does by itself, it has nothing more for the subscription. -/
def Idle (c : Carrier mw) (i : Nat) : Prop := ∀ ws : List Nat, mw.take (ws.foldl mw.work c.state) i = none

end Carrier

/-- How many samples may wait between the two. -/
def Endpoint.depthTo (publisher subscription : Endpoint) : Nat := min publisher.depth subscription.depth

/-- There is room for another sample on the way to the subscription. When it joined after `k`
    samples, it started with the last ones of them if it is transient local. -/
def Carrier.HasRoom {mw : Middleware T} (publisher subscription : Endpoint) (i : Nat) (c : Carrier mw) : Prop :=
  ∀ k ∈ c.joined i, (if subscription.transientLocal then min k (publisher.depthTo subscription) else 0) +
    c.published.length < k + (c.taken i).length + publisher.depthTo subscription

instance {mw : Middleware T} (publisher subscription : Endpoint) (i : Nat) (c : Carrier mw) :
    Decidable (c.HasRoom publisher subscription i) :=
  inferInstanceAs (Decidable (∀ k ∈ c.joined i, _ + _ < _))

/-- Samples are only published when there is room for them. -/
def Carrier.Spaced {mw : Middleware T} (publisher subscription : Endpoint) (i : Nat) (c : Carrier mw) :
    Carrier.Ev T → Prop
  | .publish _ => c.HasRoom publisher subscription i
  | _ => True

namespace Middleware

/-- They are on one topic, each with a queue, and the subscription asks for no more than the
    publisher offers. -/
structure Matches (mw : Middleware T) (publisher subscription : Endpoint) : Prop where
  topic : mw.resolve publisher.node publisher.topic = mw.resolve subscription.node subscription.topic
  depth : 0 < publisher.depthTo subscription
  durability : subscription.transientLocal = true → publisher.transientLocal = true

/-- What rclcpp documents of `rclcpp::QoS(depth)`: reliable, in order, keep last. -/
structure Documented (mw : Middleware T) : Prop where
  inOrder : ∀ publisher subscription c, Path (Carrier.step subscription) Always (.init mw publisher) c →
    ∀ i, (c.taken i).Sublist c.published
  newest : ∀ publisher subscription c, Path (Carrier.step subscription) Always (.init mw publisher) c →
    ∀ i k, mw.Matches publisher (subscription i) → c.joined i = some k →
      (subscription i).transientLocal = true ∨ k < c.published.length → c.Idle i →
      (c.taken i).getLast? = c.published.getLast?
  complete : ∀ publisher subscription i c,
    Path (Carrier.step subscription) (Carrier.Spaced publisher (subscription i) i) (.init mw publisher) c →
    mw.Matches publisher (subscription i) → ∀ k, c.joined i = some k →
      ∃ past rest, past <:+ c.published.take k ∧ ((subscription i).transientLocal = false → past = []) ∧
        c.taken i ++ rest = past ++ c.published.drop k ∧ (c.Idle i → rest = [])

/-! ## A middleware -/

/-- What a publisher has published, and the samples that wait for its subscriptions. -/
structure Lossless (T : Type) where
  publisher : Endpoint
  published : List T
  queue : Nat → Option (List T)

/-- What the publisher has kept for a new subscription. -/
def history (publisher subscription : Endpoint) (published : List T) : List T :=
  if publisher.transientLocal && subscription.transientLocal then published.rtake (publisher.depthTo subscription) else []

/-- A middleware that loses nothing. -/
def lossless (T : Type) : Middleware T where
  State := Lossless T
  resolve _ name := name
  createPublisher publisher := ⟨publisher, [], fun _ => none⟩
  connect s i subscription :=
    { s with queue := Function.update s.queue i (some (history s.publisher subscription s.published)) }
  publish s x := { s with published := s.published ++ [x], queue := fun i => (s.queue i).map (· ++ [x]) }
  work s _ := s
  take s i :=
    match s.queue i with
    | some (x :: queue) => some (x, { s with queue := Function.update s.queue i (some queue) })
    | _ => none

/-- Every sample since it joined, and what it started with, has been taken or waits. -/
structure Waits (publisher : Endpoint) (subscription : Nat → Endpoint) (i : Nat) (c : Carrier (lossless T)) : Prop where
  made : c.state.publisher = publisher
  published : c.state.published = c.published
  fresh : c.joined i = none → c.taken i = [] ∧ c.state.queue i = none
  samples : ∀ k, c.joined i = some k → k ≤ c.published.length ∧ ∃ queue, c.state.queue i = some queue ∧
    c.taken i ++ queue = history publisher (subscription i) (c.published.take k) ++ c.published.drop k

variable {publisher : Endpoint} {subscription : Nat → Endpoint} {i : Nat} {c d : Carrier (lossless T)}

theorem step_waits (hw : Waits publisher subscription i c) {ev : Carrier.Ev T}
    (h : Carrier.step subscription c ev = some d) : Waits publisher subscription i d := by
  cases ev with
  | publish x =>
    cases h
    refine ⟨hw.made, congrArg (· ++ [x]) hw.published, fun hj => ⟨(hw.fresh hj).1, ?_⟩, fun k hj => ?_⟩
    · simp [Carrier.publish, lossless, (hw.fresh hj).2]
    · obtain ⟨hle, queue, hq, hs⟩ := hw.samples k hj
      refine ⟨?_, queue ++ [x], ?_, ?_⟩
      · simp only [Carrier.publish, List.length_append]
        omega
      · simp [Carrier.publish, lossless, hq]
      · simp only [Carrier.publish]
        rw [List.take_append_of_le_length hle, List.drop_append_of_le_length hle, ← List.append_assoc, hs,
          List.append_assoc]
  | connect j =>
    obtain ⟨hj, rfl⟩ := Carrier.connect_some h
    by_cases hij : i = j
    · subst hij
      refine ⟨hw.made, hw.published, fun hn => ?_, fun k hk => ?_⟩
      · simp at hn
      · simp only [Function.update_self, Option.some.injEq] at hk
        subst hk
        refine ⟨Nat.le_refl _, history publisher (subscription i) c.published, ?_, ?_⟩
        · simp [lossless, hw.made, hw.published]
        · simp [(hw.fresh hj).1]
    · refine ⟨hw.made, hw.published, fun hn => ?_, fun k hk => ?_⟩
      · simp only [Function.update_of_ne hij] at hn
        simpa [lossless, hij] using hw.fresh hn
      · simp only [Function.update_of_ne hij] at hk
        simpa [lossless, hij] using hw.samples k hk
  | work w =>
    cases h
    exact hw
  | take j =>
    obtain ⟨⟨x, e⟩, ht, rfl⟩ := Option.map_eq_some_iff.mp h
    obtain ⟨k, state, hj, hx, rfl⟩ := Carrier.take_some ht
    simp only [lossless] at hx
    split at hx
    · rename_i y queue hq
      cases hx
      by_cases hij : i = j
      · subst hij
        refine ⟨hw.made, hw.published, fun hn => by simp [hj] at hn, fun k' hk' => ?_⟩
        obtain ⟨hle, queue', hq', hs⟩ := hw.samples k' hk'
        rw [hq] at hq'
        cases hq'
        exact ⟨hle, queue, by simp, by simpa using hs⟩
      · refine ⟨hw.made, hw.published, fun hn => ?_, fun k' hk' => ?_⟩
        · simpa [hij] using hw.fresh hn
        · simpa [hij] using hw.samples k' hk'
    · cases hx

theorem waits {ok : Carrier (lossless T) → Carrier.Ev T → Prop}
    (h : Path (Carrier.step subscription) ok (.init (lossless T) publisher) c) : Waits publisher subscription i c := by
  refine h.invariant (P := Waits publisher subscription i) ?_ fun _ _ _ hw _ hs => step_waits hw hs
  exact ⟨rfl, rfl, fun _ => ⟨rfl, rfl⟩, fun k hk => by cases hk⟩

theorem idle_iff : c.Idle i ↔ ∀ x queue, c.state.queue i ≠ some (x :: queue) := by
  have hwork : ∀ ws : List Nat, ws.foldl (lossless T).work c.state = c.state := by
    intro ws
    induction ws with
    | nil => rfl
    | cons w ws ih => exact ih
  constructor
  · intro h x queue hq
    have hnone := h []
    simp [lossless, hq] at hnone
  · intro h ws
    rw [hwork ws]
    cases hq : c.state.queue i with
    | none => simp [lossless, hq]
    | some queue =>
      cases queue with
      | nil => simp [lossless, hq]
      | cons x queue => exact absurd hq (h x queue)

theorem Waits.nil_of_idle {queue : List T} (hi : c.Idle i) (hq : c.state.queue i = some queue) : queue = [] := by
  cases queue with
  | nil => rfl
  | cons x queue => exact absurd hq (idle_iff.mp hi x queue)

theorem rtake_getLast? {n : Nat} (hn : 0 < n) (u : List T) : (u.rtake n).getLast? = u.getLast? := by
  rw [List.rtake, List.getLast?_drop]
  split
  · rename_i hu
    rw [List.length_eq_zero_iff.mp (by omega : u.length = 0)]
    rfl
  · rfl

theorem history_suffix {e : Endpoint} {published : List T} : history publisher e published <:+ published := by
  unfold history
  split
  · exact List.drop_suffix _ _
  · exact List.nil_suffix

theorem lossless_documented : (lossless T).Documented where
  inOrder publisher subscription c h i := by
    have hw := waits (i := i) h
    cases hj : c.joined i with
    | none =>
      rw [(hw.fresh hj).1]
      exact List.nil_sublist _
    | some k =>
      obtain ⟨-, queue, -, hs⟩ := hw.samples k hj
      refine (List.sublist_append_left _ queue).trans ?_
      rw [hs]
      conv_rhs => rw [← List.take_append_drop k c.published]
      exact history_suffix.sublist.append_right _
  newest publisher subscription c h i k hm hj hk hi := by
    obtain ⟨hle, queue, hq, hs⟩ := (waits (i := i) h).samples k hj
    rw [Waits.nil_of_idle hi hq, List.append_nil] at hs
    rw [hs]
    by_cases hlt : k < c.published.length
    · rw [List.getLast?_append, List.getLast?_drop, if_neg (by omega)]
      cases hlast : c.published.getLast? with
      | none => simp [List.getLast?_eq_none_iff.mp hlast] at hlt
      | some x => rfl
    · have hl := hk.resolve_right hlt
      rw [List.take_of_length_le (by omega), List.drop_of_length_le (by omega), List.append_nil, history,
        hm.durability hl, hl]
      exact rtake_getLast? hm.depth _
  complete publisher subscription i c h hm k hj := by
    obtain ⟨-, queue, hq, hs⟩ := (waits (i := i) h).samples k hj
    refine ⟨_, queue, history_suffix, fun hl => ?_, hs, fun hi => Waits.nil_of_idle hi hq⟩
    rw [history, hl, Bool.and_false]
    rfl

end Middleware

end RttRos2.Topics
