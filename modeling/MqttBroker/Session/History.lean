import MqttBroker.Session.ExactlyOnce
import MqttBroker.Solo.Stream

/-!
# What is forwarded for a history

The PUBLISH and PUBREL packets that a session has handled, of any QoS. A message of QoS 0 or 1 is
forwarded as soon as it is read, a QoS 2 message at its PUBREL. So every message that is forwarded
comes from a PUBLISH of the history; and in a history that has no QoS 2 PUBLISH after a PUBREL with
its id, there is one for each id that has both.
-/

namespace MqttBroker

/-- The topic and the payload of a forwarded message. -/
def Output.message : Output → Option (GoString × GoString)
  | forward topic payload => some (topic, payload)
  | _ => none

namespace ControlPacket

/-- The topic and the payload of a PUBLISH. -/
def content : ControlPacket → Option (GoString × GoString)
  | publish m => some (m.topicName, m.payload)
  | _ => none

/-- A PUBLISH whose message is forwarded when it is read. -/
def atOnce : ControlPacket → Bool
  | publish m => m.header.qos < 2
  | _ => false

/-- The packets that bring a message or release one. The type in the header is what a PUBLISH is
read by. -/
def delivers : ControlPacket → Bool
  | publish m => m.header.messageType = PacketType.publish
  | pubrel _ => true
  | _ => false

/-- The id that a PUBACK is due for. -/
def pubackDue : ControlPacket → Option UInt16
  | publish m => if m.header.qos = 1 then some m.messageID else none
  | _ => none

end ControlPacket

open ControlPacket (inQos2 puts releases atOnce content)

/-- What is due for a packet of any QoS that comes after the packets `h`. -/
def outputsOf (h : List ControlPacket) (p : ControlPacket) : List Output :=
  if p.inQos2 then due (fun _ => none) (h.filter inQos2) p
  else if p.atOnce then (p.content.map fun c => Output.forward c.1 c.2).toList
  else []

/-- What is due for the packets that come after the packets `h`. -/
def outputsOfAll (h : List ControlPacket) : List ControlPacket → List Output
  | [] => []
  | p :: ps => outputsOf h p ++ outputsOfAll (h ++ [p]) ps

/-- No QoS 2 PUBLISH comes after a PUBREL with its id. -/
def Orderly (ps : List ControlPacket) : Prop :=
  (ps.filter inQos2).Pairwise fun p q => Solo.MayFollow q p

/-- There is a PUBREL with the id. -/
def Released (ps : List ControlPacket) (id : UInt16) : Prop :=
  ∃ m, .pubrel m ∈ ps ∧ m.messageID = id

/-- There is a QoS 2 PUBLISH with the id. -/
def Put (ps : List ControlPacket) (id : UInt16) : Prop :=
  ∃ m, .publish m ∈ ps ∧ m.header.qos = 2 ∧ m.messageID = id

section Histories

variable {ps qs : List ControlPacket} {p : ControlPacket} {id : UInt16}

theorem outputsOfAll_append (p : ControlPacket) :
    ∀ h : List ControlPacket, outputsOfAll h (ps ++ [p]) =
      outputsOfAll h ps ++ outputsOf (h ++ ps) p := by
  induction ps with
  | nil =>
    intro h
    show outputsOf h p ++ [] = [] ++ outputsOf (h ++ []) p
    rw [List.append_nil, List.append_nil, List.nil_append]
  | cons q ps ih =>
    intro h
    rw [List.cons_append, outputsOfAll, outputsOfAll, ih, List.append_assoc, List.append_assoc]
    rfl

theorem released_append : Released (ps ++ qs) id ↔ Released ps id ∨ Released qs id := by
  simp only [Released, List.mem_append, or_and_right, exists_or]

theorem put_append : Put (ps ++ qs) id ↔ Put ps id ∨ Put qs id := by
  simp only [Put, List.mem_append, or_and_right, exists_or]

theorem Orderly.left (h : Orderly (ps ++ qs)) : Orderly ps :=
  h.sublist ((List.sublist_append_left ps qs).filter inQos2)

/-- What comes after the PUBREL is no message with its id. -/
theorem not_put_of_released (h : Orderly (ps ++ qs)) (hr : Released ps id) : ¬ Put qs id := by
  rintro ⟨m', hm', hqos, hid'⟩
  obtain ⟨m, hm, hid⟩ := hr
  rw [Orderly, List.filter_append] at h
  have hfollow := (List.pairwise_append.mp h).2.2 (.pubrel m) (List.mem_filter.mpr ⟨hm, rfl⟩)
    (.publish m') (List.mem_filter.mpr ⟨hm', decide_eq_true hqos⟩)
  exact hfollow rfl rfl (hid'.trans hid.symm)

theorem any_releases : (ps.filter inQos2).any (releases id) = true ↔ Released ps id := by
  rw [List.any_eq_true]
  constructor
  · rintro ⟨p, hp, hid⟩
    cases p with
    | pubrel m => exact ⟨m, List.mem_of_mem_filter hp, of_decide_eq_true hid⟩
    | _ => exact absurd hid Bool.false_ne_true
  · rintro ⟨m, hm, hid⟩
    exact ⟨.pubrel m, List.mem_filter.mpr ⟨hm, rfl⟩, decide_eq_true hid⟩

/-- A message with an id was put by its PUBLISH. -/
theorem publish_of_puts {v : GoString × GoString} (h : p.puts id = some v) :
    ∃ m, p = .publish m ∧ m.messageID = id ∧ (m.topicName, m.payload) = v := by
  cases p with
  | publish m =>
    rw [ControlPacket.puts] at h
    split at h
    · next hid => exact ⟨m, rfl, hid, Option.some.inj h⟩
    · exact absurd h (by simp)
  | _ => exact absurd h (by simp [ControlPacket.puts])

theorem publish_of_held {v : GoString × GoString}
    (h : heldAfter (fun _ => none) (ps.filter inQos2) id = some v) :
    ∃ m, .publish m ∈ ps ∧ m.header.qos = 2 ∧ m.messageID = id ∧ (m.topicName, m.payload) = v := by
  obtain ⟨p, hp, hputs⟩ := exists_put_of_held h
  obtain ⟨hmem, hqos⟩ := List.mem_filter.mp hp
  obtain ⟨m, rfl, hid, hv⟩ := publish_of_puts hputs
  exact ⟨m, hmem, of_decide_eq_true hqos, hid, hv⟩

/-- In order, a message is held until its PUBREL comes, and nothing after that. -/
theorem heldAfter_orderly (h : Orderly ps) (id : UInt16) :
    heldAfter (fun _ => none) (ps.filter inQos2) id =
      if (ps.filter inQos2).any (releases id) then none
      else (ps.filter inQos2).findSome? (puts id) := by
  refine held_of_pairwise (h.imp fun {p q} hfollow hp => ?_)
  cases p with
  | pubrel m =>
    obtain rfl : m.messageID = id := of_decide_eq_true hp
    cases q with
    | publish m' => exact if_neg (hfollow rfl rfl)
    | _ => rfl
  | _ => exact absurd hp Bool.false_ne_true

theorem not_released_of_held (h : Orderly ps) {v : GoString × GoString}
    (hv : heldAfter (fun _ => none) (ps.filter inQos2) id = some v) : ¬ Released ps id := by
  rw [heldAfter_orderly h] at hv
  intro hr
  rw [if_pos (any_releases.mpr hr)] at hv
  exact absurd hv (by simp)

theorem released_of_not_held (h : Orderly ps)
    (hv : heldAfter (fun _ => none) (ps.filter inQos2) id = none) (hput : Put ps id) :
    Released ps id := by
  rw [heldAfter_orderly h] at hv
  split at hv
  · next hany => exact any_releases.mp hany
  · obtain ⟨m, hm, hqos, hid⟩ := hput
    have hnone := List.findSome?_eq_none_iff.mp hv _
      (List.mem_filter.mpr ⟨hm, decide_eq_true hqos⟩)
    rw [ControlPacket.puts, if_pos hid] at hnone
    exact absurd hnone (by simp)

/-- Only a PUBREL releases. -/
theorem not_released_singleton (hp : ∀ m, p ≠ .pubrel m) : ¬ Released [p] id := by
  rintro ⟨m, hm, -⟩
  exact hp m (List.mem_singleton.mp hm).symm

/-! ## Outputs -/

theorem outputsOf_atOnce (hp : p.atOnce = true) (h : List ControlPacket) :
    p.inQos2 = false ∧ (∀ m, p ≠ .pubrel m) ∧
      ((outputsOf h p).filterMap Output.message).map some = [p.content] := by
  cases p with
  | publish m =>
    have hnot : (ControlPacket.publish m).inQos2 = false :=
      decide_eq_false (UInt8.ne_of_lt (of_decide_eq_true hp))
    refine ⟨hnot, fun _ => by simp, ?_⟩
    rw [outputsOf, hnot, hp]
    rfl
  | _ => exact absurd hp Bool.false_ne_true

theorem outputsOf_pubrel (h : List ControlPacket) (r : IdPacket) :
    (outputsOf h (.pubrel r)).filterMap Output.message =
      (heldAfter (fun _ => none) (h.filter inQos2) r.messageID).toList := by
  have hdue : outputsOf h (.pubrel r) = due (fun _ => none) (h.filter inQos2) (.pubrel r) :=
    if_pos rfl
  rw [hdue, due]
  cases heldAfter (fun _ => none) (h.filter inQos2) r.messageID with
  | none => rfl
  | some v => rfl

theorem outputsOf_nothing (hatOnce : p.atOnce = false) (hp : ∀ m, p ≠ .pubrel m)
    (h : List ControlPacket) : (outputsOf h p).filterMap Output.message = [] := by
  rw [outputsOf, hatOnce]
  cases p with
  | publish m =>
    split
    · rfl
    · rfl
  | pubrel m => exact absurd rfl (hp m)
  | _ => rfl

/-! ## Replies -/

/-- What is due is due for a packet of the history. -/
theorem mem_outputsOfAll {o : Output} : ∀ {h : List ControlPacket}, o ∈ outputsOfAll h ps →
    ∃ p ∈ ps, ∃ h', o ∈ outputsOf h' p := by
  induction ps with
  | nil => exact fun ho => absurd ho List.not_mem_nil
  | cons p ps ih =>
    intro h ho
    rcases List.mem_append.mp ho with ho | ho
    · exact ⟨p, List.mem_cons_self, h, ho⟩
    · obtain ⟨q, hq, hout⟩ := ih ho
      exact ⟨q, List.mem_cons_of_mem p hq, hout⟩

/-- Replies are due for QoS 2 packets only. -/
theorem mem_due_of_mem_outputsOf {h : List ControlPacket} {o : Output} (ho : o ∈ outputsOf h p)
    (hreply : o.message = none) :
    p.inQos2 = true ∧ o ∈ due (fun _ => none) (h.filter inQos2) p := by
  rw [outputsOf] at ho
  split at ho
  · next hqos => exact ⟨hqos, ho⟩
  · split at ho
    · obtain ⟨c, -, rfl⟩ := Option.map_eq_some_iff.mp (Option.mem_toList.mp ho)
      exact absurd hreply (by simp [Output.message])
    · exact absurd ho List.not_mem_nil

theorem put_of_pubrec {h : List ControlPacket} (ho : .pubrec id ∈ outputsOfAll h ps) :
    Put ps id := by
  obtain ⟨p, hp, h', hout⟩ := mem_outputsOfAll ho
  obtain ⟨hqos, hdue⟩ := mem_due_of_mem_outputsOf hout rfl
  cases p with
  | publish m =>
    exact ⟨m, hp, of_decide_eq_true hqos, (Output.pubrec.inj (List.mem_singleton.mp hdue)).symm⟩
  | pubrel m =>
    rcases List.mem_cons.mp hdue with heq | hforward
    · exact absurd heq (by simp)
    · obtain ⟨v, -, heq⟩ := Option.map_eq_some_iff.mp (Option.mem_toList.mp hforward)
      exact absurd heq (by simp)
  | _ => exact absurd hqos Bool.false_ne_true

theorem released_of_pubcomp {h : List ControlPacket} (ho : .pubcomp id ∈ outputsOfAll h ps) :
    Released ps id := by
  obtain ⟨p, hp, h', hout⟩ := mem_outputsOfAll ho
  obtain ⟨hqos, hdue⟩ := mem_due_of_mem_outputsOf hout rfl
  cases p with
  | publish m => exact absurd (List.mem_singleton.mp hdue) (by simp)
  | pubrel m =>
    rcases List.mem_cons.mp hdue with heq | hforward
    · exact ⟨m, hp, (Output.pubcomp.inj heq).symm⟩
    · obtain ⟨v, -, heq⟩ := Option.map_eq_some_iff.mp (Option.mem_toList.mp hforward)
      exact absurd heq (by simp)
  | _ => exact absurd hqos Bool.false_ne_true

end Histories

/-! ## Where messages come from -/

section Covers

variable {α : Type} (f : α → ControlPacket)

/-- The ids of the QoS 2 messages. -/
def qos2Ids (ys : List α) : List UInt16 :=
  (ys.filter fun y => (f y).inQos2).map fun y => (f y).messageID

/-- For the packets of `xs`, the messages of `ys` are forwarded: those of QoS 0 and 1 are all that
there are. -/
structure Covers (xs ys : List α) : Prop where
  mem : ∀ y ∈ ys, y ∈ xs
  messages : ((outputsOfAll [] (xs.map f)).filterMap Output.message).map some =
    ys.map fun y => (f y).content
  atOnce : ys.filter (fun y => (f y).atOnce) = xs.filter fun x => (f x).atOnce

/-- The QoS 2 messages of `ys` are one for each id that has a PUBLISH and a PUBREL in `xs`. -/
structure EachOnce (xs ys : List α) : Prop where
  nodup : (qos2Ids f ys).Nodup
  released : ∀ id ∈ qos2Ids f ys, Released (xs.map f) id
  complete : ∀ id, Released (xs.map f) id → Put (xs.map f) id → id ∈ qos2Ids f ys

variable {f} {xs ys ys' : List α} {x : α}

theorem qos2Ids_append (ys ys' : List α) :
    qos2Ids f (ys ++ ys') = qos2Ids f ys ++ qos2Ids f ys' := by
  rw [qos2Ids, List.filter_append, List.map_append]
  rfl

theorem qos2Ids_singleton (y : α) :
    qos2Ids f [y] = if (f y).inQos2 then [(f y).messageID] else [] := by
  rw [qos2Ids, List.filter_singleton]
  cases (f y).inQos2 with
  | true => rfl
  | false => rfl

/-- One packet more, for which the messages of `ys'` are forwarded. -/
theorem Covers.append (h : Covers f xs ys) (hmem : ∀ y ∈ ys', y ∈ xs ++ [x])
    (hout : ((outputsOf (xs.map f) (f x)).filterMap Output.message).map some =
      ys'.map fun y => (f y).content)
    (hatOnce : ys'.filter (fun y => (f y).atOnce) = [x].filter fun x => (f x).atOnce) :
    Covers f (xs ++ [x]) (ys ++ ys') where
  mem y hy := (List.mem_append.mp hy).elim (fun hy => List.mem_append_left _ (h.mem y hy)) (hmem y)
  messages := by
    rw [List.map_append, List.map_singleton, outputsOfAll_append, List.filterMap_append,
      List.map_append, h.messages, List.nil_append, hout, List.map_append]
  atOnce := by
    rw [List.filter_append, List.filter_append, h.atOnce, hatOnce]

/-- Nothing is forwarded. -/
theorem Covers.append_nothing (h : Covers f xs ys) (hatOnce : (f x).atOnce = false)
    (hout : (outputsOf (xs.map f) (f x)).filterMap Output.message = []) :
    Covers f (xs ++ [x]) ys := by
  have happend : Covers f (xs ++ [x]) (ys ++ []) := by
    refine h.append (fun y hy => absurd hy List.not_mem_nil) ?_ ?_
    · rw [hout]
      rfl
    · rw [List.filter_singleton, hatOnce]
      rfl
  rwa [List.append_nil] at happend

/-- A message of QoS 0 or 1 is forwarded. -/
theorem Covers.append_atOnce (h : Covers f xs ys) (hatOnce : (f x).atOnce = true) :
    Covers f (xs ++ [x]) (ys ++ [x]) :=
  h.append (fun _ hy => List.mem_append_right _ hy) (outputsOf_atOnce hatOnce _).2.2 rfl

/-- A QoS 2 message is forwarded at its PUBREL. -/
theorem Covers.append_pubrel (h : Covers f xs ys) {r : IdPacket} (hx : f x = .pubrel r)
    {v : GoString × GoString}
    (hheld : heldAfter (fun _ => none) ((xs.map f).filter inQos2) r.messageID = some v) :
    ∃ y, Covers f (xs ++ [x]) (ys ++ [y]) ∧ (f y).inQos2 = true ∧
      (f y).messageID = r.messageID := by
  obtain ⟨m, hm, hqos, hid, rfl⟩ := publish_of_held hheld
  obtain ⟨y, hy, hym⟩ := List.mem_map.mp hm
  have hlate : ¬ m.header.qos < 2 := by
    rw [hqos]
    decide
  refine ⟨y, h.append ?_ ?_ ?_, ?_, ?_⟩
  · intro y' hy'
    rw [List.mem_singleton.mp hy']
    exact List.mem_append_left _ hy
  · rw [hx, outputsOf_pubrel, hheld, List.map_singleton, hym]
    rfl
  · rw [List.filter_singleton, List.filter_singleton, hym, hx, ControlPacket.atOnce,
      decide_eq_false hlate]
    rfl
  · rw [hym]
    exact decide_eq_true hqos
  · rw [hym]
    exact hid

namespace EachOnce

/-- A packet that releases no message. -/
theorem append (h : EachOnce f xs ys) (horder : Orderly (xs.map f ++ [f x]))
    (hold : ∀ id, Released [f x] id → Put (xs.map f) id → Released (xs.map f) id)
    (hids : qos2Ids f ys' = []) : EachOnce f (xs ++ [x]) (ys ++ ys') := by
  have hsame : qos2Ids f (ys ++ ys') = qos2Ids f ys := by
    rw [qos2Ids_append, hids, List.append_nil]
  constructor
  · rw [hsame]
    exact h.nodup
  · intro id hid
    rw [hsame] at hid
    rw [List.map_append, released_append]
    exact .inl (h.released id hid)
  · intro id hr hput
    rw [List.map_append, List.map_singleton] at hr hput
    rw [hsame]
    have hreleased : Put (xs.map f) id → Released (xs.map f) id := fun hput =>
      (released_append.mp hr).elim (fun hr => hr) fun hr => hold id hr hput
    rcases put_append.mp hput with hput | hput
    · exact h.complete id (hreleased hput) hput
    · rcases released_append.mp hr with hr | ⟨m', hm', -⟩
      · exact absurd hput (not_put_of_released horder hr)
      · obtain ⟨m, hm, -⟩ := hput
        have heq := (List.mem_singleton.mp hm).trans (List.mem_singleton.mp hm').symm
        exact absurd heq (by simp)

theorem append_same (h : EachOnce f xs ys) (horder : Orderly (xs.map f ++ [f x]))
    (hold : ∀ id, Released [f x] id → Put (xs.map f) id → Released (xs.map f) id) :
    EachOnce f (xs ++ [x]) ys := by
  have happend : EachOnce f (xs ++ [x]) (ys ++ []) := h.append horder hold rfl
  rwa [List.append_nil] at happend

/-- The first PUBREL with the id of a message. -/
theorem append_pubrel (h : EachOnce f xs ys) {r : IdPacket} (hx : f x = .pubrel r) {y : α}
    (hqos : (f y).inQos2 = true) (hid : (f y).messageID = r.messageID)
    (hfirst : ¬ Released (xs.map f) r.messageID) : EachOnce f (xs ++ [x]) (ys ++ [y]) := by
  have hids : qos2Ids f (ys ++ [y]) = qos2Ids f ys ++ [r.messageID] := by
    rw [qos2Ids_append, qos2Ids_singleton, if_pos hqos, hid]
  constructor
  · rw [hids, List.nodup_append]
    refine ⟨h.nodup, List.nodup_singleton _, fun a ha b hb hab => ?_⟩
    rw [hab, List.mem_singleton.mp hb] at ha
    exact hfirst (h.released _ ha)
  · intro id hmem
    rw [hids] at hmem
    rw [List.map_append, List.map_singleton, hx, released_append]
    rcases List.mem_append.mp hmem with hmem | hmem
    · exact .inl (h.released id hmem)
    · rw [List.mem_singleton.mp hmem]
      exact .inr ⟨r, List.mem_singleton_self _, rfl⟩
  · intro id hr hput
    rw [List.map_append, List.map_singleton, hx] at hr hput
    rw [hids]
    rcases released_append.mp hr with hr | ⟨r', hr', rfl⟩
    · rcases put_append.mp hput with hput | ⟨m', hm', -⟩
      · exact List.mem_append_left _ (h.complete id hr hput)
      · exact absurd (List.mem_singleton.mp hm') (by simp)
    · obtain rfl := ControlPacket.pubrel.inj (List.mem_singleton.mp hr')
      exact List.mem_append_right _ (List.mem_singleton_self _)

end EachOnce

/-- By induction on the history. -/
theorem exists_covers (xs : List α) :
    ∃ ys, Covers f xs ys ∧ (Orderly (xs.map f) → EachOnce f xs ys) := by
  induction xs using List.reverseRecOn with
  | nil =>
    refine ⟨[], ⟨fun y hy => hy, rfl, rfl⟩, fun _ => ⟨List.nodup_nil, ?_, ?_⟩⟩
    · exact fun id hid => absurd hid List.not_mem_nil
    · rintro id ⟨m, hm, -⟩
      exact absurd hm List.not_mem_nil
  | append_singleton xs x ih =>
    obtain ⟨ys, hcovers, honce⟩ := ih
    rw [List.map_append, List.map_singleton]
    cases hatOnce : (f x).atOnce with
    | true =>
      obtain ⟨hnot, hp, -⟩ := outputsOf_atOnce hatOnce (xs.map f)
      refine ⟨ys ++ [x], hcovers.append_atOnce hatOnce, fun h => (honce h.left).append h ?_ ?_⟩
      · exact fun id hr => absurd hr (not_released_singleton hp)
      · rw [qos2Ids_singleton, hnot]
        rfl
    | false =>
      by_cases hp : ∃ r, f x = .pubrel r
      · obtain ⟨r, hx⟩ := hp
        cases hheld : heldAfter (fun _ => none) ((xs.map f).filter inQos2) r.messageID with
        | some v =>
          obtain ⟨y, hy, hqos, hid⟩ := hcovers.append_pubrel hx hheld
          refine ⟨ys ++ [y], hy, fun h => (honce h.left).append_pubrel hx hqos hid ?_⟩
          exact not_released_of_held h.left hheld
        | none =>
          have hout : (outputsOf (xs.map f) (f x)).filterMap Output.message = [] := by
            rw [hx, outputsOf_pubrel, hheld]
            rfl
          refine ⟨ys, hcovers.append_nothing hatOnce hout, fun h => (honce h.left).append_same h ?_⟩
          -- the message was released before, or there is none
          rintro id ⟨r', hr', rfl⟩ hput
          obtain rfl := ControlPacket.pubrel.inj ((List.mem_singleton.mp hr').trans hx)
          exact released_of_not_held h.left hheld hput
      · have hp : ∀ r, f x ≠ .pubrel r := fun r hx => hp ⟨r, hx⟩
        refine ⟨ys, hcovers.append_nothing hatOnce (outputsOf_nothing hatOnce hp _),
          fun h => (honce h.left).append_same h ?_⟩
        exact fun id hr => absurd hr (not_released_singleton hp)

end Covers

end MqttBroker
