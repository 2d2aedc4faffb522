/-
  RttRos2.Topics.Transport — the streams that connect ports with ROS topics: the policies of
  rostopic.hpp, `RosTypeTransporter::createStream`, and what reaches the topic.

  RTT builds the storage between a port and the publisher, as the policy says. It is a
  parameter: `ConnFactory` is what builds it, and `ConnFactory.Documented` what is relied on.
  A data object keeps the newest sample (`Storage.KeepsNewest`); a buffer keeps all that it
  has taken (`Storage.KeepsAll`), and takes as many as its size (`Storage.Takes`). Whatever
  the threads around a stream do (Topics.Publisher):
  - `topic_latest`: with the policy of `topic` or `topicLatched`, once the executors are
    done, the last sample published is the last one that was stored, whoever wrote it.
  - `topicBuffered_lossless`: with the policy of `topicBuffered` each sample stored is in
    one place, in order, and none is refused in a burst that the buffer has room for; once
    the executors are done all of it has been published.
-/

import RttRos2.Node.Service
import RttRos2.Topics.Drain
import RttRos2.Topics.Names

namespace RttRos2.Topics

open RttRos2.Lib RttRos2.Node

/-! ## rostopic.hpp -/

inductive ConnType where
  | data
  | buffer
  | circularBuffer
  | unbuffered
  deriving DecidableEq, Repr

structure ConnPolicy where
  type : ConnType
  size : Nat
  init : Bool
  pull : Bool
  nameId : List Char
  transport : Nat
  deriving DecidableEq, Repr

/-- `ORO_ROS2_PROTOCOL_ID` -/
def protocolId : Nat := 32

/-- `ConnPolicy::data()` -/
def ConnPolicy.data : ConnPolicy := ⟨.data, 0, true, false, [], 0⟩

def ConnPolicy.buffer (size : Nat) : ConnPolicy := ⟨.buffer, size, false, false, [], 0⟩

def topic (name : List Char) (latch : Bool) : ConnPolicy :=
  { ConnPolicy.data with init := latch, nameId := name, transport := protocolId }

def topicLatched (name : List Char) : ConnPolicy := topic name true

def topicBuffered (name : List Char) (size : Nat) (latch : Bool) : ConnPolicy :=
  { ConnPolicy.buffer size with init := latch, nameId := name, transport := protocolId }

def topicDirect (name : List Char) (size : Nat) (latch : Bool) : ConnPolicy :=
  { ConnPolicy.buffer size with init := latch, nameId := name, transport := protocolId, type := .unbuffered }

/-! ## createStream -/

structure Port where
  name : List Char
  /-- The component it belongs to. -/
  owner : Option String

/-- A publisher or a subscription: `rclcpp::QoS(depth)`, transient local or volatile. -/
structure Endpoint where
  node : RosNode
  topic : List Char
  depth : Nat
  transientLocal : Bool
  deriving DecidableEq, Repr

inductive Stream (T : Type) where
  | null
  | threw (what : String)
  /-- The port writes to the publisher. -/
  | direct (publisher : Endpoint)
  | sender (storage : Storage T) (publisher : Endpoint)
  | receiver (subscription : Endpoint)

/-- RTT's `ConnFactory`. -/
structure ConnFactory (T : Type) where
  buildDataStorage : ConnPolicy → Option (Storage T)

/-- The constructors of the channel elements. -/
def Endpoint.create (node : RosNode) (policy : ConnPolicy) (topic : List Char) : Endpoint :=
  ⟨node, topic, max 1 policy.size, policy.init⟩

/-- `none` when the conversion of the port's name takes more than `n` turns. -/
def createStream {T : Type} (rtt : ConnFactory T) (n : Nat) (p : Process) (port : Port) (policy : ConnPolicy)
    (isSender : Bool) : Option (Stream T) :=
  if policy.pull then some .null
  else
    match p.getNode port.owner with
    | none => some .null
    | some node =>
      (findTopic n port.name policy.nameId).map fun
        | .error what => .threw what
        | .ok topic =>
          if isSender then
            if policy.type = .unbuffered then .direct (.create node policy topic)
            else
              match rtt.buildDataStorage policy with
              | none => .null
              | some storage => .sender storage (.create node policy topic)
          else .receiver (.create node policy topic)

variable {T : Type} {rtt : ConnFactory T} {B : Storage T} {s t : St T} {n : Nat} {ev : Ev T} {es : List (Ev T)}

/-- What `createStream` makes when it makes a stream. -/
theorem createStream_cases {p : Process} {port : Port} {policy : ConnPolicy} {isSender : Bool} {stream : Stream T}
    (h : createStream rtt n p port policy isSender = some stream) :
    stream = .null ∨ (∃ what, stream = .threw what) ∨ ∃ node topic,
      (isSender = true ∧ policy.type = .unbuffered ∧ stream = .direct (.create node policy topic)) ∨
      (isSender = true ∧ ∃ storage, rtt.buildDataStorage policy = some storage ∧
        stream = .sender storage (.create node policy topic)) ∨
      (isSender = false ∧ stream = .receiver (.create node policy topic)) := by
  unfold createStream at h
  split at h
  · cases h
    exact Or.inl rfl
  · split at h
    · cases h
      exact Or.inl rfl
    · rename_i node _
      obtain ⟨found, -, rfl⟩ := Option.map_eq_some_iff.mp h
      cases found with
      | error what => exact Or.inr (Or.inl ⟨what, rfl⟩)
      | ok topic =>
        cases isSender with
        | false => exact Or.inr (Or.inr ⟨node, topic, Or.inr (Or.inr ⟨rfl, rfl⟩)⟩)
        | true =>
          dsimp only
          rw [if_pos rfl]
          split
          · rename_i htype
            exact Or.inr (Or.inr ⟨node, topic, Or.inl ⟨rfl, htype, rfl⟩⟩)
          · split
            · exact Or.inl rfl
            · rename_i storage hs
              exact Or.inr (Or.inr ⟨node, topic, Or.inr (Or.inl ⟨rfl, storage, hs, rfl⟩)⟩)

theorem createStream_sender {p : Process} {port : Port} {policy : ConnPolicy} {publisher : Endpoint}
    (h : createStream rtt n p port policy true = some (.sender B publisher)) : B ∈ rtt.buildDataStorage policy := by
  rcases createStream_cases h with hn | ⟨what, hw⟩ | ⟨node, topic, ⟨-, -, hd⟩ | ⟨-, storage, hs, hd⟩ | ⟨hb, -⟩⟩
  · cases hn
  · cases hw
  · cases hd
  · cases hd
    exact hs
  · cases hb

/-! ## What a storage keeps -/

namespace Storage

def KeepsNewest (B : Storage T) : Prop := ∀ u x u', B.retain u x = some u' → u'.getLast? = some x

def KeepsAll (B : Storage T) : Prop := ∀ u x u', B.retain u x = some u' → u' = u ++ [x]

/-- It refuses no sample when it holds fewer than `n`. -/
def Takes (n : Nat) (B : Storage T) : Prop := ∀ u x, u.length < n → (B.retain u x).isSome

end Storage

/-- What RTT documents of a data object and of a buffer. -/
structure ConnFactory.Documented (rtt : ConnFactory T) : Prop where
  data : ∀ policy, policy.type = .data → ∀ B ∈ rtt.buildDataStorage policy, B.KeepsNewest ∧ ∀ n, B.Takes n
  buffer : ∀ policy, policy.type = .buffer → ∀ B ∈ rtt.buildDataStorage policy, B.KeepsAll ∧ B.Takes policy.size

/-- What a step does with samples: nothing, or one is stored, read or published. -/
inductive Handles (B : Storage T) (s : St T) (ev : Ev T) (t : St T) : Prop
  | nothing : t.unread = s.unread → t.reads = s.reads → t.written = s.written → t.published = s.published →
      Handles B s ev t
  | stored (w : Nat) (x : T) (u : List T) : ev = .store w x → B.retain s.unread x = some u → t.unread = u →
      t.reads = s.reads → t.written = s.written ++ [x] → t.published = s.published → Handles B s ev t
  | read (x : T) (u : List T) : s.unread = x :: u → t.unread = u → t.reads = s.reads ++ [x] →
      t.written = s.written → t.published = s.published → Handles B s ev t
  | published (x : T) : t.unread = s.unread → t.reads = s.reads → t.written = s.written →
      t.published = s.published ++ [x] → Handles B s ev t

theorem execute_handles {e : Nat} {answer : Bool} (h : s.execute e answer = some t) :
    Handles B s (.execute e answer) t := by
  simp only [St.execute] at h
  split at h
  · cases h
  · cases h
  · cases h
    exact .nothing rfl rfl rfl rfl
  · cases h
    exact .nothing rfl rfl rfl rfl
  · cases h
    exact .nothing rfl rfl rfl rfl
  · cases h
    exact .nothing rfl rfl rfl rfl
  · split at h
    · cases h
      exact .nothing rfl rfl rfl rfl
    · rename_i x u hu
      cases h
      exact .read x u hu rfl rfl rfl rfl
  · rename_i loan x _
    cases h
    exact .published x rfl rfl rfl rfl
  · rename_i done _
    cases done <;> cases h <;> exact .nothing rfl rfl rfl rfl
  · cases h
    exact .nothing rfl rfl rfl rfl

theorem step_handles (h : step B s ev = some t) : Handles B s ev t := by
  cases ev with
  | store w x =>
    obtain ⟨-, rfl | ⟨u, hu, rfl⟩⟩ := step_store h
    · exact .nothing rfl rfl rfl rfl
    · exact .stored w x u rfl hu rfl rfl rfl rfl
  | signal w =>
    obtain ⟨-, rfl⟩ := step_signal h
    exact .nothing rfl rfl rfl rfl
  | isReady e =>
    obtain ⟨-, -, rfl⟩ := step_isReady h
    exact .nothing rfl rfl rfl rfl
  | lock e =>
    obtain ⟨-, -, rfl⟩ := step_lock h
    exact .nothing rfl rfl rfl rfl
  | execute e answer => exact execute_handles h
  | cancel c =>
    obtain ⟨-, -, rfl⟩ := step_cancel h
    exact .nothing rfl rfl rfl rfl
  | reset c =>
    obtain ⟨-, rfl⟩ := step_reset h
    exact .nothing rfl rfl rfl rfl
  | cancelReturn c =>
    obtain ⟨-, rfl⟩ := step_cancelReturn h
    exact .nothing rfl rfl rfl rfl

/-- A step moves samples from the storage to what was read, or stores one. -/
theorem step_books (h : step B s ev = some t) :
    (t.reads ++ t.unread = s.reads ++ s.unread ∧ t.unread.length ≤ s.unread.length ∧ t.written = s.written) ∨
    ∃ w x u, ev = .store w x ∧ B.retain s.unread x = some u ∧
      t.reads = s.reads ∧ t.unread = u ∧ t.written = s.written ++ [x] := by
  cases step_handles h with
  | nothing hu hr hw _ => exact Or.inl ⟨by rw [hu, hr], by rw [hu], hw⟩
  | stored w x u hev hretain hu hr hw _ => exact Or.inr ⟨w, x, u, hev, hretain, hr, hu, hw⟩
  | read x u hs hu hr hw _ => exact Or.inl ⟨by simp [hs, hu, hr], by simp [hs, hu], hw⟩
  | published x hu hr hw _ => exact Or.inl ⟨by rw [hu, hr], by rw [hu], hw⟩

theorem newest_kept (hB : B.KeepsNewest) (h : Path (step B) Always init s) :
    (s.reads ++ s.unread).getLast? = s.written.getLast? := by
  refine h.invariant (P := fun s => (s.reads ++ s.unread).getLast? = s.written.getLast?) rfl ?_
  intro s t ev hs _ he
  rcases step_books he with ⟨hb, -, hw⟩ | ⟨w, x, u, -, hu, hr, hn, hw⟩
  · rw [hb, hw]
    exact hs
  · rw [hn, hw, List.getLast?_append, hB _ _ _ hu]
    simp

theorem all_kept (hB : B.KeepsAll) (h : Path (step B) Always init s) : s.reads ++ s.unread = s.written := by
  refine h.invariant (P := fun s => s.reads ++ s.unread = s.written) rfl ?_
  intro s t ev hs _ he
  rcases step_books he with ⟨hb, -, hw⟩ | ⟨w, x, u, -, hu, hr, hn, hw⟩
  · rw [hb, hw]
    exact hs
  · rw [hr, hn, hw, hB _ _ _ hu, ← List.append_assoc, hs]

/-- Without executors at work, and with nothing left for them to do. -/
theorem stuck_published {k : Nat} (hk : 0 < k) (h : Path (step B) (Among k) init s) (hs : Stuck B k s) :
    s.unread = [] ∧ s.published = s.reads :=
  stuck_drained hk (reach_inv (h.mono fun _ _ _ => trivial)) (reach_few h) hs

/-! ## topic -/

/-- The sample a writer writes. -/
def Ev.sample? : Ev T → Option T
  | .store _ x => some x
  | _ => none

theorem topic_latest (rtt : ConnFactory T) (hrtt : rtt.Documented) (n : Nat) (p : Process) (port : Port)
    (name : List Char) (latch : Bool) (B : Storage T) (publisher : Endpoint)
    (h : createStream rtt n p port (topic name latch) true = some (.sender B publisher)) (k : Nat) (hk : 0 < k)
    (t : St T) (hr : Path (step B) (Among k) init t) (hs : Stuck B k t) :
    t.unread = [] ∧ t.published.Sublist t.written ∧ t.published.getLast? = t.written.getLast? := by
  have hnewest : B.KeepsNewest := (hrtt.data _ rfl B (createStream_sender h)).1
  obtain ⟨hu, hp⟩ := stuck_published hk hr hs
  have hreach : Path (step B) Always init t := hr.mono fun _ _ _ => trivial
  have hlast := newest_kept hnewest hreach
  have hsub := (reach_inv hreach).order
  rw [hu, List.append_nil, ← hp] at hlast hsub
  exact ⟨hu, hsub, hlast⟩

/-! ### A stream -/

/-- A connection factory that does what RTT documents. -/
def plainFactory : ConnFactory T where
  buildDataStorage policy :=
    match policy.type with
    | .data => some .data
    | .buffer => some (.buffer policy.size)
    | .circularBuffer | .unbuffered => none

theorem plainFactory_documented : (plainFactory : ConnFactory T).Documented where
  data policy htype B hB := by
    simp only [plainFactory, htype] at hB
    cases hB
    refine ⟨fun u x u' h => ?_, fun n u x hu => rfl⟩
    cases h
    rfl
  buffer policy htype B hB := by
    simp only [plainFactory, htype] at hB
    cases hB
    refine ⟨fun u x u' h => ?_, fun u x hu => ?_⟩
    · simp only [Storage.buffer] at h
      split at h
      · cases h
        rfl
      · cases h
    · simp only [Storage.buffer, if_pos hu]
      rfl

/-- The component "arm", with a node of its own, and its port. -/
def armProcess : Process := start.run (fun _ => true) [.load (some "arm") 0]

def armPort : Port := ⟨['o', 'u', 't'], some "arm"⟩

/-- What its streams connect to, on one topic. -/
def armEndpoint (depth : Nat) (transientLocal : Bool) : Endpoint :=
  ⟨⟨"arm", "", some "arm"⟩, ['t'], depth, transientLocal⟩

/-- Two samples are written before the executor comes. -/
def latest : List (Ev Nat) :=
  [.store 0 5, .signal 0, .store 0 7, .signal 0, .isReady 0, .lock 0] ++ List.replicate 8 (.execute 0 false)

theorem stuck_idle (he : s.executor 0 = .idle) (hw : s.writer 0 = .idle) (hn : s.hasWork = false) : Stuck B 1 s := by
  intro ev hd
  cases ev with
  | signal w =>
    cases Nat.lt_one_iff.mp hd
    simp [step, hw]
  | isReady e =>
    cases Nat.lt_one_iff.mp hd
    simp [step, he, hn]
  | lock e =>
    cases Nat.lt_one_iff.mp hd
    simp [step, he]
  | execute e answer =>
    cases Nat.lt_one_iff.mp hd
    simp [step, St.execute, he]
  | store | cancel | reset | cancelReturn => cases hd

theorem topic_latest_two :
    ∃ t, run (step .data) (Among 1) init latest = some t ∧ t.published = [7] ∧ t.written = [5, 7] ∧
      (t.unread = [] ∧ t.published.Sublist t.written ∧ t.published.getLast? = t.written.getLast?) :=
  ⟨_, rfl, rfl, rfl, topic_latest plainFactory plainFactory_documented 0 armProcess armPort ['t'] true .data
    (armEndpoint 1 true) rfl 1 Nat.zero_lt_one _ (run_path latest rfl) (stuck_idle rfl rfl rfl)⟩

/-! ## topicBuffered -/

/-- In a storage that has room for it, a sample written is stored. -/
theorem step_room {size : Nat} (hall : B.KeepsAll) (htakes : B.Takes size) (h : step B s ev = some t)
    (hroom : s.unread.length + ev.sample?.toList.length ≤ size) :
    t.written = s.written ++ ev.sample?.toList ∧ t.unread.length ≤ s.unread.length + ev.sample?.toList.length := by
  cases hx : ev.sample? with
  | none =>
    rcases step_books h with ⟨-, hle, hw⟩ | ⟨w, x, u, rfl, -⟩
    · exact ⟨by rw [hw]; simp, Nat.le_add_right_of_le hle⟩
    · cases hx
  | some x =>
    cases ev with
    | store w y =>
      cases hx
      obtain ⟨u, hu⟩ := Option.isSome_iff_exists.mp (htakes s.unread x hroom)
      simp only [step, hu] at h
      split at h
      · cases h
        exact ⟨rfl, by simp [hall _ _ _ hu]⟩
      · cases h
    | _ => cases hx

/-- A burst that the storage has room for. -/
theorem burst_taken {size : Nat} {ok : St T → Ev T → Prop} [∀ s e, Decidable (ok s e)] (hall : B.KeepsAll)
    (htakes : B.Takes size) (hr : run (step B) ok s es = some t)
    (hroom : s.unread.length + (es.filterMap Ev.sample?).length ≤ size) :
    t.written = s.written ++ es.filterMap Ev.sample? := by
  induction es generalizing s with
  | nil =>
    cases hr
    exact (List.append_nil _).symm
  | cons ev es ih =>
    simp only [run] at hr
    split at hr
    · obtain ⟨u, hu, hr⟩ := Option.bind_eq_some_iff.mp hr
      have hcons : (ev :: es).filterMap Ev.sample? = ev.sample?.toList ++ es.filterMap Ev.sample? := by
        cases hx : ev.sample? <;> simp [hx]
      rw [hcons, List.length_append] at hroom
      obtain ⟨hw, hle⟩ := step_room hall htakes hu (by omega)
      rw [ih hr (by omega), hw, hcons, List.append_assoc]
    · cases hr

theorem topicBuffered_lossless (rtt : ConnFactory T) (hrtt : rtt.Documented) (n : Nat) (p : Process) (port : Port)
    (name : List Char) (size : Nat) (latch : Bool) (B : Storage T) (publisher : Endpoint)
    (h : createStream rtt n p port (topicBuffered name size latch) true = some (.sender B publisher)) (k : Nat)
    (hk : 0 < k) (s : St T) (hs : Path (step B) (Among k) init s) :
    s.published ++ s.hand ++ s.unread = s.written ∧
      ∀ es t, run (step B) (Among k) s es = some t → s.unread.length + (es.filterMap Ev.sample?).length ≤ size →
        t.written = s.written ++ es.filterMap Ev.sample? ∧ (Stuck B k t → t.published = t.written) := by
  obtain ⟨hall, htakes⟩ := hrtt.buffer _ rfl B (createStream_sender h)
  have kept : ∀ u, Path (step B) (Among k) init u → u.published ++ u.hand ++ u.unread = u.written := by
    intro u hu
    have hreach : Path (step B) Always init u := hu.mono fun _ _ _ => trivial
    rw [(reach_inv hreach).books]
    exact all_kept hall hreach
  refine ⟨kept s hs, fun es t hr hroom => ⟨burst_taken hall htakes hr hroom, fun hstuck => ?_⟩⟩
  have ht := hs.trans (run_path es hr)
  obtain ⟨hu, hp⟩ := stuck_published hk ht hstuck
  rw [hp, ← all_kept hall (ht.mono fun _ _ _ => trivial), hu, List.append_nil]

/-- As many samples as the buffer has room for, before the executor comes. -/
def burst : List (Ev Nat) :=
  [.store 0 5, .signal 0, .store 0 7, .signal 0, .isReady 0, .lock 0] ++ List.replicate 10 (.execute 0 false)

theorem topicBuffered_lossless_two :
    ∃ t, run (step (.buffer 2)) (Among 1) init burst = some t ∧ t.published = [5, 7] ∧
      t.written = [] ++ burst.filterMap Ev.sample? ∧ t.published = t.written := by
  have h := topicBuffered_lossless plainFactory plainFactory_documented 0 armProcess armPort ['t'] 2 false (.buffer 2)
    (armEndpoint 2 false) rfl 1 Nat.zero_lt_one (init : St Nat) .refl
  refine ⟨_, rfl, rfl, ?_⟩
  obtain ⟨hwritten, hdone⟩ := h.2 burst _ rfl (by decide)
  exact ⟨hwritten, hdone (stuck_idle rfl rfl rfl)⟩

end RttRos2.Topics
