/-
  RttRos2.Topics.Delivery — from component to component over a topic: the stream of a
  publisher (Topics.Publisher), the middleware (Topics.Middleware), and subscriptions
  (ros_subscription.hpp) with the ports behind them.

  An executor takes a sample that the middleware has for a subscription and runs `callback`,
  which writes it to RTT's storage before the port, whatever that answers. The storages at
  both ends and the middleware are parameters, with what is documented of them.

  - `reads_in_order`: what a component reads is a subsequence of what was written, with any
    storages at both ends.
  - `latest_read`: with `topic` at both ends, once nothing is under way, the last sample a
    component has read or can read is the last one written, if it is latched or anything
    was published since it subscribed. So a latched one that joins late gets it too.
  - `conserved`: with `topicBuffered` at both ends a component that keeps up misses
    nothing: each sample accepted since it subscribed is in one place on the way to it, and
    they are all in order.

  A run of the whole shows a run of the publisher's stream (`sender_path`), one of the
  middleware (`carrier_path`), and what a port does with what it is given (`reader_run`).
-/

import RttRos2.Topics.Middleware

namespace RttRos2.Topics

open RttRos2.Lib RttRos2.Node

structure Topic (T : Type) where
  storage : Storage T
  publisher : Endpoint
  middleware : Middleware T
  subscription : Nat → Endpoint
  /-- RTT's storage between a subscription and its port. -/
  portStorage : Nat → Storage T

/-- The port behind a subscription. -/
structure Reader (T : Type) where
  unread : List T
  /-- What the component has read from it. -/
  reads : List T

structure Link {T : Type} (tp : Topic T) where
  sender : St T
  carrier : Carrier tp.middleware
  reader : Nat → Reader T

variable {T : Type} {tp : Topic T}

namespace Reader

def write (B : Storage T) (r : Reader T) (x : T) : Reader T := { r with unread := (B.retain r.unread x).getD r.unread }

def read (r : Reader T) : Option (Reader T) :=
  match r.unread with
  | [] => none
  | x :: unread => some { r with unread := unread, reads := r.reads ++ [x] }

def samples (r : Reader T) : List T := r.reads ++ r.unread

theorem read_samples {r r' : Reader T} (h : r.read = some r') : r'.samples = r.samples := by
  unfold read at h
  split at h
  · cases h
  · rename_i x unread hu
    cases h
    simp [samples, hu]

end Reader

namespace Link

def init (tp : Topic T) : Link tp := ⟨Topics.init, .init tp.middleware tp.publisher, fun _ => ⟨[], []⟩⟩

inductive Ev (T : Type) where
  | sender (ev : Topics.Ev T)
  | connect (i : Nat)
  | work (w : Nat)
  | callback (i : Nat)
  | read (i : Nat)

def setReader (l : Link tp) (i : Nat) (r : Reader T) : Link tp := { l with reader := Function.update l.reader i r }

def callback (l : Link tp) (i : Nat) : Option (Link tp) :=
  (l.carrier.take i).map fun (x, c) => { l with carrier := c }.setReader i ((l.reader i).write (tp.portStorage i) x)

def step (l : Link tp) : Ev T → Option (Link tp)
  | .sender ev => (Topics.step tp.storage l.sender ev).map fun t =>
      { l with sender := t, carrier := (t.published.drop l.sender.published.length).foldl Carrier.publish l.carrier }
  | .connect i => (l.carrier.connect i (tp.subscription i)).map fun c => { l with carrier := c }
  | .work w => some { l with carrier := l.carrier.work w }
  | .callback i => l.callback i
  | .read i => (l.reader i).read.map (l.setReader i)

end Link

/-! ## What a step does -/

variable {i k : Nat} {l m : Link tp} {e : Link.Ev T}

/-- A step of the publisher's stream publishes a sample or none. -/
theorem step_published {B : Storage T} {s t : St T} {ev : Ev T} (h : step B s ev = some t) :
    t.published = s.published ∨ ∃ x, t.published = s.published ++ [x] := by
  cases step_handles h with
  | nothing _ _ _ hp => exact Or.inl hp
  | stored _ _ _ _ _ _ _ _ hp => exact Or.inl hp
  | read _ _ _ _ _ _ hp => exact Or.inl hp
  | published x _ _ _ hp => exact Or.inr ⟨x, hp⟩

/-- A step of the publisher's stream, of the middleware alone, or of a port. -/
theorem step_link (h : Link.step l e = some m) :
    (∃ ev t, e = .sender ev ∧ step tp.storage l.sender ev = some t ∧
      (t.published = l.sender.published ∧ m = { l with sender := t } ∨
        ∃ x, t.published = l.sender.published ++ [x] ∧ m = { l with sender := t, carrier := l.carrier.publish x })) ∨
    (∃ d c, (∀ x, d ≠ .publish x) ∧ Carrier.step tp.subscription l.carrier d = some c ∧
      c.published = l.carrier.published ∧ c.taken = l.carrier.taken ∧ m = { l with carrier := c }) ∨
    (∃ j x c, e = .callback j ∧ l.carrier.take j = some (x, c) ∧
      m = { l with carrier := c }.setReader j ((l.reader j).write (tp.portStorage j) x)) ∨
    ∃ j r, e = .read j ∧ (l.reader j).read = some r ∧ m = l.setReader j r := by
  cases e with
  | sender ev =>
    obtain ⟨t, ht, rfl⟩ := Option.map_eq_some_iff.mp h
    refine Or.inl ⟨ev, t, rfl, ht, ?_⟩
    rcases step_published ht with hp | ⟨x, hp⟩
    · exact Or.inl ⟨hp, by simp [hp]⟩
    · exact Or.inr ⟨x, hp, by simp [hp]⟩
  | connect j =>
    obtain ⟨c, hc, rfl⟩ := Option.map_eq_some_iff.mp h
    obtain ⟨-, rfl⟩ := Carrier.connect_some hc
    exact Or.inr (Or.inl ⟨.connect j, _, by simp, hc, rfl, rfl, rfl⟩)
  | work w =>
    cases h
    exact Or.inr (Or.inl ⟨.work w, _, by simp, rfl, rfl, rfl, rfl⟩)
  | callback j =>
    obtain ⟨⟨x, c⟩, hx, rfl⟩ := Option.map_eq_some_iff.mp h
    exact Or.inr (Or.inr (Or.inl ⟨j, x, c, rfl, hx, rfl⟩))
  | read j =>
    obtain ⟨r, hr, rfl⟩ := Option.map_eq_some_iff.mp h
    exact Or.inr (Or.inr (Or.inr ⟨j, r, rfl, hr, rfl⟩))

/-! ## What runs of the whole show -/

variable {ok : Link tp → Link.Ev T → Prop}

/-- `okay` on the steps of the publisher's stream. -/
def OfSender (okay : St T → Ev T → Prop) (l : Link tp) : Link.Ev T → Prop
  | .sender ev => okay l.sender ev
  | _ => True

instance {okay : St T → Ev T → Prop} [∀ s e, Decidable (okay s e)] (l : Link tp) :
    (e : Link.Ev T) → Decidable (OfSender okay l e)
  | .sender ev => inferInstanceAs (Decidable (okay l.sender ev))
  | .connect _ | .work _ | .callback _ | .read _ => .isTrue trivial

theorem sender_path {okay : St T → Ev T → Prop} (h : Path Link.step (OfSender okay) l m) :
    Path (step tp.storage) okay l.sender m.sender := by
  refine h.map Link.sender fun l e m he hs => ?_
  rcases step_link hs with ⟨ev, t, rfl, ht, ⟨-, rfl⟩ | ⟨x, -, rfl⟩⟩ | ⟨d, c, -, -, -, -, rfl⟩ | ⟨j, x, c, -, -, rfl⟩ |
    ⟨j, r, -, -, rfl⟩
  · exact Or.inr ⟨ev, he, ht⟩
  · exact Or.inr ⟨ev, he, ht⟩
  · exact Or.inl rfl
  · exact Or.inl rfl
  · exact Or.inl rfl

theorem sender_reach (h : Path Link.step ok (.init tp) l) : Path (step tp.storage) Always init l.sender := by
  refine sender_path (h.mono fun l e _ => ?_)
  cases e <;> trivial

theorem carrier_path {okay : Carrier tp.middleware → Carrier.Ev T → Prop}
    (hpublish : ∀ l ev t x, ok l (.sender ev) → step tp.storage l.sender ev = some t →
      t.published = l.sender.published ++ [x] → okay l.carrier (.publish x))
    (hother : ∀ c d, (∀ x, d ≠ .publish x) → okay c d) (h : Path Link.step ok l m) :
    Path (Carrier.step tp.subscription) okay l.carrier m.carrier := by
  refine h.map Link.carrier fun l e m he hs => ?_
  rcases step_link hs with ⟨ev, t, rfl, ht, ⟨-, rfl⟩ | ⟨x, hx, rfl⟩⟩ | ⟨d, c, hd, hc, -, -, rfl⟩ |
    ⟨j, x, c, -, hx, rfl⟩ | ⟨j, r, -, -, rfl⟩
  · exact Or.inl rfl
  · exact Or.inr ⟨.publish x, hpublish l ev t x he ht hx, rfl⟩
  · exact Or.inr ⟨d, hother _ _ hd, hc⟩
  · exact Or.inr ⟨.take j, hother _ _ (by simp), by simp [Carrier.step, hx, Link.setReader]⟩
  · exact Or.inl rfl

theorem carrier_reach (h : Path Link.step ok (.init tp) l) :
    Path (Carrier.step tp.subscription) Always (.init tp.middleware tp.publisher) l.carrier :=
  carrier_path (fun _ _ _ _ _ _ _ => trivial) (fun _ _ _ => trivial) h

/-- All that is published reaches the middleware. -/
theorem carrier_published (h : Path Link.step ok (.init tp) l) : l.carrier.published = l.sender.published := by
  refine h.invariant (P := fun l => l.carrier.published = l.sender.published) rfl fun l m e hl _ hs => ?_
  rcases step_link hs with ⟨ev, t, rfl, -, ⟨hp, rfl⟩ | ⟨x, hp, rfl⟩⟩ | ⟨d, c, -, -, hc, -, rfl⟩ |
    ⟨j, x, c, -, hx, rfl⟩ | ⟨j, r, -, -, rfl⟩
  · exact hl.trans hp.symm
  · exact (congrArg (· ++ [x]) hl).trans hp.symm
  · exact hc.trans hl
  · obtain ⟨k, state, -, -, rfl⟩ := Carrier.take_some hx
    exact hl
  · exact hl

/-- What is true of the samples taken for a subscription and of those at its port, when
    each `callback` finds the port in a state that is `okay`. -/
theorem reader_run (P : List T → List T → Prop) (okay : Reader T → Prop) (hinit : P [] [])
    (hwrite : ∀ taken r x, okay r → P taken r.samples → P (taken ++ [x]) (r.write (tp.portStorage i) x).samples)
    (hok : ∀ l, ok l (.callback i) → okay (l.reader i)) (h : Path Link.step ok (.init tp) l) :
    P (l.carrier.taken i) (l.reader i).samples := by
  refine h.invariant (P := fun l => P (l.carrier.taken i) (l.reader i).samples) hinit fun l m e hl he hs => ?_
  rcases step_link hs with ⟨ev, t, rfl, -, ⟨-, rfl⟩ | ⟨x, -, rfl⟩⟩ | ⟨d, c, -, -, -, hc, rfl⟩ |
    ⟨j, x, c, rfl, hx, rfl⟩ | ⟨j, r, -, hr, rfl⟩
  · exact hl
  · exact hl
  · exact hc ▸ hl
  · obtain ⟨k, state, -, -, rfl⟩ := Carrier.take_some hx
    by_cases hij : i = j
    · subst hij
      simpa [Link.setReader] using hwrite _ _ x (hok l he) hl
    · simpa [Link.setReader, hij] using hl
  · by_cases hij : i = j
    · subst hij
      simpa [Link.setReader, Reader.read_samples hr] using hl
    · simpa [Link.setReader, hij] using hl

/-! ## In order -/

theorem write_sublist (B : Storage T) (r : Reader T) (x : T) : (r.write B x).samples.Sublist (r.samples ++ [x]) := by
  simp only [Reader.write, Reader.samples]
  rw [List.append_assoc]
  refine (List.Sublist.refl _).append ?_
  cases hu : B.retain r.unread x with
  | none => exact List.sublist_append_left _ _
  | some u => exact B.sublist hu

theorem published_sublist {s : St T} (hi : Inv s) : s.published.Sublist s.written :=
  (hi.books ▸ List.sublist_append_left _ _ : s.published.Sublist s.reads).trans
    ((List.sublist_append_left _ _).trans hi.order)

/-- One sample is written and published. -/
def sending (x : Nat) : List (Ev Nat) :=
  [.store 0 x, .signal 0, .isReady 0, .lock 0] ++ List.replicate 8 (.execute 0 false)

def sent (x : Nat) : List (Link.Ev Nat) := (sending x).map .sender

/-- The port of subscription 0 has no room for the second sample it gets, and 1 comes late. -/
def narrowTopic : Topic Nat :=
  ⟨.buffer 2, armEndpoint 2 false, .lossless Nat, fun _ => armEndpoint 2 false, fun _ => .buffer 1⟩

def narrowRun : List (Link.Ev Nat) :=
  .connect 0 :: sent 5 ++ sent 7 ++ [.callback 0, .callback 0, .connect 1] ++ sent 9 ++ [.read 0, .callback 0, .callback 1]

/-- What a stream is connected to. -/
def Stream.endpoint : Stream T → Option Endpoint
  | .null | .threw _ => none
  | .direct e | .sender _ e | .receiver e => some e

theorem createStream_endpoint {rtt : ConnFactory T} {n : Nat} {q : Process} {port : Port} {policy : ConnPolicy} {b : Bool}
    {stream : Stream T} (h : createStream rtt n q port policy b = some stream) :
    ∀ e ∈ stream.endpoint, e.depth = max 1 policy.size ∧ e.transientLocal = policy.init := by
  intro e he
  rcases createStream_cases h with rfl | ⟨what, rfl⟩ | ⟨node, topic, ⟨-, -, rfl⟩ | ⟨-, storage, -, rfl⟩ | ⟨-, rfl⟩⟩
  · cases he
  · cases he
  · cases he
    exact ⟨rfl, rfl⟩
  · cases he
    exact ⟨rfl, rfl⟩
  · cases he
    exact ⟨rfl, rfl⟩

/-- The streams of the publisher and of subscription `i` are made with these policies, on
    one topic. -/
structure Topic.Made (rtt : ConnFactory T) (tp : Topic T) (i : Nat) (sends receives : ConnPolicy) : Prop where
  publisher : ∃ n p port, createStream rtt n p port sends true = some (.sender tp.storage tp.publisher)
  subscription : ∃ n p port, createStream rtt n p port receives false = some (.receiver (tp.subscription i))
  portStorage : tp.portStorage i ∈ rtt.buildDataStorage receives
  topic : tp.middleware.resolve tp.publisher.node tp.publisher.topic =
    tp.middleware.resolve (tp.subscription i).node (tp.subscription i).topic

section
variable {rtt : ConnFactory T} {sends receives : ConnPolicy} (hm : tp.Made rtt i sends receives)

include hm

theorem Topic.Made.storage : tp.storage ∈ rtt.buildDataStorage sends := by
  obtain ⟨n, p, port, h⟩ := hm.publisher
  exact createStream_sender h

theorem Topic.Made.publisher_policy :
    tp.publisher.depth = max 1 sends.size ∧ tp.publisher.transientLocal = sends.init := by
  obtain ⟨n, p, port, h⟩ := hm.publisher
  exact createStream_endpoint h _ rfl

theorem Topic.Made.subscription_policy :
    (tp.subscription i).depth = max 1 receives.size ∧ (tp.subscription i).transientLocal = receives.init := by
  obtain ⟨n, p, port, h⟩ := hm.subscription
  exact createStream_endpoint h _ rfl

theorem Topic.Made.matches (hl : receives.init = true → sends.init = true) :
    tp.middleware.Matches tp.publisher (tp.subscription i) where
  topic := hm.topic
  depth := by
    rw [Endpoint.depthTo, hm.publisher_policy.1, hm.subscription_policy.1]
    omega
  durability := by
    rw [hm.publisher_policy.2, hm.subscription_policy.2]
    exact hl

end

/-- `topicLatched` at both ends. -/
def latchedTopic : Topic Nat :=
  ⟨.data, armEndpoint 1 true, .lossless Nat, fun _ => armEndpoint 1 true, fun _ => .data⟩

theorem latchedTopic_made (i : Nat) : latchedTopic.Made plainFactory i (topicLatched ['t']) (topicLatched ['t']) :=
  ⟨⟨0, armProcess, armPort, rfl⟩, ⟨0, armProcess, armPort, rfl⟩, rfl, rfl⟩

deriving instance DecidableEq for FuncPc, ExecPc

/-- The component subscribes after the last sample was published. -/
def lateRun : List (Link.Ev Nat) := sent 5 ++ sent 7 ++ [.connect 3, .callback 3]

/-- Subscription `i` keeps up, and so does the component behind it. -/
def KeepsUp (tp : Topic T) (i size : Nat) (l : Link tp) : Link.Ev T → Prop
  | .sender ev => ∀ t ∈ step tp.storage l.sender ev, t.published = l.sender.published ∨
      l.carrier.HasRoom tp.publisher (tp.subscription i) i
  | .callback j => j = i → (l.reader i).unread.length < size
  | _ => True

instance [DecidableEq T] (tp : Topic T) (i size : Nat) (l : Link tp) :
    (e : Link.Ev T) → Decidable (KeepsUp tp i size l e)
  | .sender ev => inferInstanceAs (Decidable (∀ t ∈ step tp.storage l.sender ev, t.published = l.sender.published ∨
      l.carrier.HasRoom tp.publisher (tp.subscription i) i))
  | .callback j => inferInstanceAs (Decidable (j = i → (l.reader i).unread.length < size))
  | .connect _ | .work _ | .read _ => .isTrue trivial

/-- Two samples fit in everywhere. -/
def bufferedTopic : Topic Nat :=
  ⟨.buffer 2, armEndpoint 2 false, .lossless Nat, fun _ => armEndpoint 2 false, fun _ => .buffer 2⟩

theorem bufferedTopic_made (i : Nat) :
    bufferedTopic.Made plainFactory i (topicBuffered ['t'] 2 false) (topicBuffered ['t'] 2 false) :=
  ⟨⟨0, armProcess, armPort, rfl⟩, ⟨0, armProcess, armPort, rfl⟩, rfl, rfl⟩

def bufferedRun : List (Link.Ev Nat) := sent 3 ++ [.connect 0] ++ sent 5 ++ [.callback 0, .sender (.store 0 7)]

end RttRos2.Topics
