import RefCache.Tasks
import Mathlib.Data.List.Basic

/-! What subscribers get from the update channel. A ledger keeps every message ever published and,
for each subscription, the numbers of the messages it was given; the channel keeps its latest
messages and one place for each receiver. Whatever is done with them, both give the same answers. -/

namespace RefCache

/-- What is done with a channel. -/
inductive ChannelOp (κ : Type) where
  | publish (m : Message)
  | subscribe (key : κ) (topic : String)
  | unsubscribe (key : κ)
  | receive (key : κ)
  | close
  deriving DecidableEq, Repr

/-- The state after a sequence of operations, and the answers to them. -/
def playOut {σ ω ρ : Type} (perform : σ → ω → σ × ρ) (s : σ) : List ω → σ × List ρ
  | [] => (s, [])
  | op :: later =>
    let (s, answer) := perform s op
    let (s, answers) := playOut perform s later
    (s, answer :: answers)

/-- What a ledger says about a subscription. -/
structure Account where
  topic : String
  /-- How many messages had been published when it was made. -/
  since : Nat
  /-- The numbers of the messages it was given, as it was given them. -/
  given : List Nat
  /-- How many messages had been published when it last asked for one. -/
  asked : Nat
  deriving DecidableEq, Repr

/-- The messages a subscription has still to be given, with their numbers: those of its topic that
were published after it was made, are among the latest and were not given to it. -/
def outstanding (retain : Nat) (published : List Message) (a : Account) :
    List (Message × Nat) :=
  published.zipIdx.filter fun x =>
    x.1.topic = a.topic ∧ a.since ≤ x.2 ∧ published.length ≤ x.2 + retain ∧ x.2 ∉ a.given

/-- A subscription that has asked for a message, and got it if there was one. -/
def Account.give (a : Account) (count : Nat) (next : Option (Message × Nat)) : Account :=
  { a with given := a.given ++ next.toList.map Prod.snd, asked := count }

/-- Messages were published since the subscription last asked for one, and all on its topic. -/
structure Account.HasBurst (a : Account) (published : List Message) : Prop where
  some : a.asked < published.length
  only : ∀ m ∈ published.drop a.asked, m.topic = a.topic

structure Ledger (κ : Type) [Ord κ] where
  published : List Message
  accounts : Std.ExtTreeMap κ Account
  closed : Bool

variable {κ : Type} [Ord κ] [Std.TransOrd κ]

namespace Ledger

def empty : Ledger κ := ⟨[], ∅, false⟩

omit [Std.TransOrd κ] in
def answer (l : Ledger κ) : Option (Message × Nat) → Received
  | some (m, _) => .payload m.payload
  | none => if l.closed then .closed else .pending

/-- What is done with a ledger, of which the latest messages can still be given. -/
def perform (retain : Nat) (l : Ledger κ) : ChannelOp κ → Ledger κ × Option Received
  | .publish m => ({ l with published := l.published ++ [m] }, none)
  | .subscribe key topic =>
    let a : Account := ⟨topic, l.published.length, [], l.published.length⟩
    ({ l with accounts := l.accounts.insert key a }, none)
  | .unsubscribe key => ({ l with accounts := l.accounts.erase key }, none)
  | .receive key =>
    match l.accounts[key]? with
    | none => (l, none)
    | some a =>
      let next := (outstanding retain l.published a).head?
      let a := a.give l.published.length next
      ({ l with accounts := l.accounts.insert key a }, some (l.answer next))
  | .close => ({ l with closed := true }, none)

end Ledger

def Broadcast.perform (b : Broadcast κ) : ChannelOp κ → Broadcast κ × Option Received
  | .publish m => (b.publish m, none)
  | .subscribe key topic => (b.subscribe key topic, none)
  | .unsubscribe key => (b.unsubscribe key, none)
  | .receive key =>
    match b.receive? key with
    | none => (b, none)
    | some got => (got.channel, some got.received)
  | .close => (b.close, none)

section

variable {retain i : Nat} {published : List Message} {m : Message} {a : Account}
  {x : Message × Nat}

theorem mem_outstanding : x ∈ outstanding retain published a ↔
    published[x.2]? = some x.1 ∧ x.1.topic = a.topic ∧ a.since ≤ x.2 ∧
      published.length ≤ x.2 + retain ∧ x.2 ∉ a.given := by
  simp only [outstanding, List.mem_filter, List.mem_zipIdx_iff_getElem?, decide_eq_true_eq]

/-- A message for a subscription was given to it, is lost, or is outstanding. -/
theorem given_or_lost_or_outstanding (hget : published[i]? = some m) (htopic : m.topic = a.topic)
    (hsince : a.since ≤ i) :
    i ∈ a.given ∨ i + retain < published.length ∨ (m, i) ∈ outstanding retain published a := by
  by_cases hgiven : i ∈ a.given
  · exact .inl hgiven
  · rcases Nat.lt_or_ge (i + retain) published.length with hlost | hlatest
    · exact .inr (.inl hlost)
    · exact .inr (.inr (mem_outstanding.2 ⟨hget, htopic, hsince, hlatest, hgiven⟩))

/-- They are in the order in which they were published. -/
theorem pairwise_outstanding :
    (outstanding retain published a).Pairwise fun x y => x.2 < y.2 := by
  refine List.Pairwise.sublist List.filter_sublist (List.pairwise_map.1 ?_)
  rw [List.zipIdx_map_snd]
  exact List.pairwise_lt_range'

/-- Nothing that is outstanding was published before the first of it. -/
theorem le_of_head?_outstanding {y : Message × Nat}
    (hx : (outstanding retain published a).head? = some x)
    (hy : y ∈ outstanding retain published a) : x.2 ≤ y.2 := by
  obtain ⟨rest, hrest⟩ := List.head?_eq_some_iff.1 hx
  have hordered : (outstanding retain published a).Pairwise fun x y => x.2 < y.2 :=
    pairwise_outstanding
  rw [hrest] at hordered hy
  rcases List.mem_cons.1 hy with rfl | hlater
  · exact Nat.le_refl _
  · exact Nat.le_of_lt ((List.pairwise_cons.1 hordered).1 y hlater)

/-- What was given is no longer outstanding, and everything else still is. -/
theorem outstanding_give (count : Nat) :
    outstanding retain published (a.give count (outstanding retain published a).head?) =
      (outstanding retain published a).tail := by
  have hgive : ∀ next, outstanding retain published (a.give count next) =
      (outstanding retain published a).filter fun x => x.2 ∉ next.toList.map Prod.snd := by
    intro next
    rw [outstanding, outstanding, List.filter_filter]
    refine List.filter_congr fun x _ => ?_
    simp only [Account.give, List.mem_append, not_or, Bool.decide_and, ← Bool.and_assoc]
    grind
  rw [hgive]
  have hordered : (outstanding retain published a).Pairwise fun x y => x.2 < y.2 :=
    pairwise_outstanding
  cases houtstanding : outstanding retain published a with
  | nil => rfl
  | cons x rest =>
    rw [houtstanding, List.pairwise_cons] at hordered
    rw [List.head?_cons, List.tail_cons, List.filter_cons_of_neg (by simp)]
    refine List.filter_eq_self.2 fun y hy => ?_
    simpa using Nat.ne_of_gt (hordered.1 y hy)

end

section

variable {retain : Nat} {published : List Message} {r : Receiver} {a : Account}

/-- The numbered messages from a number on. -/
theorem filter_zipIdx_from {q : Message × Nat → Prop} [DecidablePred q] {start : Nat}
    (hstart : start ≤ published.length) :
    (published.zipIdx.filter fun x => q x ∧ start ≤ x.2) =
      ((published.drop start).zipIdx start).filter fun x => q x := by
  have hsplit : published.zipIdx =
      (published.take start).zipIdx ++ (published.drop start).zipIdx start := by
    have happend := @List.zipIdx_append _ (published.take start) (published.drop start) 0
    rwa [List.take_append_drop, List.length_take, Nat.min_eq_left hstart, Nat.zero_add] at happend
  have hbefore : ((published.take start).zipIdx.filter fun x => q x ∧ start ≤ x.2) = [] := by
    refine List.filter_eq_nil_iff.2 fun x hx => ?_
    have hlt := List.snd_lt_of_mem_zipIdx hx
    rw [List.length_take, Nat.min_eq_left hstart] at hlt
    simp only [decide_eq_true_eq, not_and, Nat.not_le]
    exact fun _ => hlt
  rw [hsplit, List.filter_append, hbefore, List.nil_append]
  refine List.filter_congr fun x hx => decide_eq_decide.2 ?_
  exact and_iff_left (List.le_snd_of_mem_zipIdx hx)

/-- A receiver stops behind the next message of its topic, or behind all messages. -/
theorem Broadcast.take_eq (r : Receiver) (ms : List Message) :
    take r ms = match ((ms.zipIdx r.next).filter fun x => x.1.topic = r.topic).head? with
      | some (m, i) => ({ r with next := i + 1 }, some m.payload)
      | none => ({ r with next := r.next + ms.length }, none) := by
  induction ms generalizing r with
  | nil => rfl
  | cons m rest ih =>
    by_cases htopic : m.topic = r.topic
    · simp [take, htopic]
    · simp only [take, if_neg htopic, ih, List.zipIdx_cons]
      rw [List.filter_cons_of_neg (by simpa using htopic), List.length_cons,
        Nat.add_comm rest.length, ← Nat.add_assoc]

/-- A receiver is in step with its account: it has passed what was given and what is lost. -/
structure InStep (retain : Nat) (published : List Message) (r : Receiver) (a : Account) :
    Prop where
  topic_eq : r.topic = a.topic
  since_le : a.since ≤ r.next
  next_le : r.next ≤ a.asked
  asked_le : a.asked ≤ published.length
  in_order : a.given.Pairwise (· < ·)
  own : ∀ i ∈ a.given, a.since ≤ i ∧ i < r.next ∧ ∃ m, published[i]? = some m ∧ m.topic = a.topic
  passed : ∀ i m, published[i]? = some m → m.topic = a.topic → a.since ≤ i → i < r.next →
    i ∈ a.given ∨ i + retain < published.length

/-- The number from which on a receiver looks for messages. -/
def reach (retain : Nat) (published : List Message) (r : Receiver) : Nat :=
  max r.next (published.length - retain)

namespace InStep

theorem reach_le (h : InStep retain published r a) :
    reach retain published r ≤ published.length :=
  Nat.max_le.2 ⟨Nat.le_trans h.next_le h.asked_le, Nat.sub_le _ _⟩

/-- A message is outstanding if it is of the topic and lies ahead of the receiver. -/
theorem mem_outstanding (h : InStep retain published r a) {x : Message × Nat} :
    x ∈ outstanding retain published a ↔
      published[x.2]? = some x.1 ∧ x.1.topic = r.topic ∧ reach retain published r ≤ x.2 := by
  rw [RefCache.mem_outstanding, h.topic_eq, reach, Nat.max_le]
  constructor
  · rintro ⟨hx, htopic, hsince, hlatest, hnew⟩
    refine ⟨hx, htopic, Nat.not_lt.1 fun hpassed => ?_, by omega⟩
    rcases h.passed x.2 x.1 hx htopic hsince hpassed with hgiven | hlost
    · exact hnew hgiven
    · omega
  · rintro ⟨hx, htopic, hahead, hlatest⟩
    refine ⟨hx, htopic, Nat.le_trans h.since_le hahead, by omega, fun hgiven => ?_⟩
    exact absurd (h.own x.2 hgiven).2.1 (Nat.not_lt.2 hahead)

/-- What a receiver finds of its topic is what is outstanding. -/
theorem outstanding_eq (h : InStep retain published r a) :
    outstanding retain published a =
      ((published.drop (reach retain published r)).zipIdx (reach retain published r)).filter
        fun x => x.1.topic = r.topic := by
  rw [← filter_zipIdx_from h.reach_le]
  refine List.filter_congr fun x hx => decide_eq_decide.2 ?_
  have hmem := h.mem_outstanding (x := x)
  rw [RefCache.mem_outstanding, ← List.mem_zipIdx_iff_getElem?] at hmem
  simpa only [hx, true_and] using hmem

theorem publish (m : Message) (h : InStep retain published r a) :
    InStep retain (published ++ [m]) r a := by
  have hlength : (published ++ [m]).length = published.length + 1 := List.length_append
  have hold : ∀ i, i < published.length → (published ++ [m])[i]? = published[i]? :=
    fun i hi => List.getElem?_append_left hi
  have hasked := h.asked_le
  have hnext := h.next_le
  refine ⟨h.topic_eq, h.since_le, h.next_le, by omega, h.in_order, fun i hi => ?_,
    fun i m' hi htopic hsince hpassed => ?_⟩
  · obtain ⟨hsince, hpassed, hown⟩ := h.own i hi
    exact ⟨hsince, hpassed, by rwa [hold i (by omega)]⟩
  · rw [hold i (by omega)] at hi
    exact (h.passed i m' hi htopic hsince hpassed).imp_right fun hlost => by omega

theorem rel_publish {place : Option Receiver} {record : Option Account} (m : Message)
    (h : Option.Rel (InStep retain published) place record) :
    Option.Rel (InStep retain (published ++ [m])) place record := by
  cases h with
  | some h => exact .some (h.publish m)
  | none => exact .none

/-- The receiver of a subscription that is given the first outstanding message is behind it. -/
theorem give {x : Message × Nat} (h : InStep retain published r a)
    (hx : (outstanding retain published a).head? = some x) :
    InStep retain published { r with next := x.2 + 1 } (a.give published.length (some x)) := by
  obtain ⟨hget, htopic, hahead⟩ := h.mem_outstanding.1 (List.mem_of_mem_head? hx)
  have hnext : r.next ≤ x.2 := Nat.le_trans (Nat.le_max_left _ _) hahead
  have hsince : a.since ≤ x.2 := Nat.le_trans h.since_le hnext
  have hcount : x.2 < published.length := (List.getElem?_eq_some_iff.1 hget).1
  refine ⟨h.topic_eq, Nat.le_succ_of_le hsince, hcount, Nat.le_refl _, ?_, ?_, ?_⟩
  · refine List.pairwise_append.2 ⟨h.in_order, List.pairwise_singleton _ _, fun i hi j hj => ?_⟩
    obtain rfl := List.mem_singleton.1 hj
    exact Nat.lt_of_lt_of_le (h.own i hi).2.1 hnext
  · intro i hi
    rcases List.mem_append.1 hi with hgiven | hnew
    · obtain ⟨hfrom, hpassed, hown⟩ := h.own i hgiven
      exact ⟨hfrom, Nat.lt_succ_of_le (Nat.le_trans (Nat.le_of_lt hpassed) hnext), hown⟩
    · obtain rfl := List.mem_singleton.1 hnew
      exact ⟨hsince, Nat.lt_succ_self _, x.1, hget, htopic.trans h.topic_eq⟩
  · intro i m hm hown hfrom hpassed
    rcases given_or_lost_or_outstanding (a := a) hm hown hfrom with hgiven | hlost | hout
    · exact .inl (List.mem_append_left _ hgiven)
    · exact .inr hlost
    · have hle : x.2 ≤ i := le_of_head?_outstanding hx hout
      obtain rfl : i = x.2 := Nat.le_antisymm (Nat.le_of_lt_succ hpassed) hle
      exact .inl (List.mem_append_right _ (List.mem_singleton_self _))

/-- The receiver of a subscription for which nothing is outstanding passes all messages. -/
theorem giveNone (h : InStep retain published r a)
    (hnone : (outstanding retain published a).head? = none) :
    InStep retain published { r with next := published.length }
      (a.give published.length none) := by
  have hnext : r.next ≤ published.length := Nat.le_trans h.next_le h.asked_le
  have hgive : a.give published.length none = { a with asked := published.length } := by
    simp only [Account.give, Option.toList_none, List.map_nil, List.append_nil]
  rw [hgive]
  refine ⟨h.topic_eq, Nat.le_trans h.since_le hnext, Nat.le_refl _, Nat.le_refl _, h.in_order,
    fun i hi => ?_, fun i m hm hown hfrom _ => ?_⟩
  · obtain ⟨hfrom, hpassed, hown⟩ := h.own i hi
    exact ⟨hfrom, Nat.lt_of_lt_of_le hpassed hnext, hown⟩
  · rw [List.head?_eq_none_iff] at hnone
    rcases given_or_lost_or_outstanding hm hown hfrom with hgiven | hlost | hout
    · exact .inl hgiven
    · exact .inr hlost
    · exact absurd hout (hnone ▸ List.not_mem_nil)

theorem subscribe {sent : Nat} (hsent : sent = published.length) (topic : String) :
    InStep retain published ⟨topic, sent⟩ ⟨topic, published.length, [], published.length⟩ := by
  subst hsent
  exact ⟨rfl, Nat.le_refl _, Nat.le_refl _, Nat.le_refl _, List.Pairwise.nil, nofun,
    fun _ _ _ _ hfrom hpassed => absurd hpassed (Nat.not_lt.2 hfrom)⟩

/-- A burst of messages on the topic of a subscription is not lost altogether. -/
theorem burst (hretain : 0 < retain) (h : InStep retain published r a)
    (hburst : a.HasBurst published) :
    ∃ x ∈ outstanding retain published a, a.asked ≤ x.2 := by
  have hnew := hburst.some
  rcases List.eq_nil_or_concat' published with rfl | ⟨older, m, rfl⟩
  · exact absurd hnew (Nat.not_lt_zero _)
  · rw [List.length_append, List.length_singleton] at hnew
    have hasked : a.asked ≤ older.length := Nat.le_of_lt_succ hnew
    have hmem : m ∈ (older ++ [m]).drop a.asked := by
      rw [List.drop_append_of_le_length hasked]
      exact List.mem_append_right _ (List.mem_singleton_self m)
    have hahead : reach retain (older ++ [m]) r ≤ older.length := by
      rw [reach, List.length_append, List.length_singleton]
      exact Nat.max_le.2 ⟨Nat.le_trans h.next_le hasked, by omega⟩
    exact ⟨(m, older.length), h.mem_outstanding.2 ⟨List.getElem?_concat_length,
      (hburst.only m hmem).trans h.topic_eq.symm, hahead⟩, hasked⟩

end InStep

end

/-- The channel is where the ledger says. -/
structure Tracks (retain : Nat) (b : Broadcast κ) (l : Ledger κ) : Prop where
  capacity_eq : b.capacity = retain
  sent_eq : b.sent = l.published.length
  retained_eq : b.retained = l.published.drop (l.published.length - retain)
  closed_eq : b.closed = l.closed
  receivers : ∀ key : κ,
    Option.Rel (InStep retain l.published) b.receivers[key]? l.accounts[key]?

namespace Tracks

variable {retain : Nat} {b : Broadcast κ} {l : Ledger κ}

theorem start (n : Nat) :
    Tracks n.nextPowerOfTwo (Broadcast.ofCapacity n : Broadcast κ) Ledger.empty := by
  refine ⟨rfl, rfl, List.drop_nil.symm, rfl, fun key => ?_⟩
  simp [Broadcast.ofCapacity, Ledger.empty]

theorem oldest_eq (h : Tracks retain b l) : b.oldest = l.published.length - retain := by
  rw [Broadcast.oldest, h.sent_eq, h.retained_eq, List.length_drop]
  omega

/-- One message more is retained, and perhaps one gives way. -/
theorem retained_publish (m : Message) (h : Tracks retain b l) :
    (b.publish m).retained =
      (l.published ++ [m]).drop ((l.published ++ [m]).length - retain) := by
  have hall : b.retained ++ [m] = (l.published ++ [m]).drop (l.published.length - retain) := by
    rw [h.retained_eq, List.drop_append_of_le_length (Nat.sub_le _ _)]
  simp only [Broadcast.publish, h.capacity_eq, hall, List.drop_drop, List.length_drop,
    List.length_append, List.length_singleton]
  congr 1
  omega

theorem publish (m : Message) (h : Tracks retain b l) :
    Tracks retain (b.publish m) { l with published := l.published ++ [m] } := by
  refine ⟨h.capacity_eq, ?_, h.retained_publish m, h.closed_eq,
    fun key => InStep.rel_publish m (h.receivers key)⟩
  simp only [Broadcast.publish, h.sent_eq, List.length_append, List.length_singleton]

/-- A receiver and a subscription take the places of those of their key. -/
theorem insert {r : Receiver} {a : Account} (h : Tracks retain b l) (key : κ)
    (hstep : InStep retain l.published r a) :
    Tracks retain { b with receivers := b.receivers.insert key r }
      { l with accounts := l.accounts.insert key a } := by
  refine ⟨h.capacity_eq, h.sent_eq, h.retained_eq, h.closed_eq, fun other => ?_⟩
  simp only [Std.ExtTreeMap.getElem?_insert]
  split
  · exact .some hstep
  · exact h.receivers other

theorem erase (h : Tracks retain b l) (key : κ) :
    Tracks retain (b.unsubscribe key) { l with accounts := l.accounts.erase key } := by
  refine ⟨h.capacity_eq, h.sent_eq, h.retained_eq, h.closed_eq, fun other => ?_⟩
  simp only [Broadcast.unsubscribe, Std.ExtTreeMap.getElem?_erase]
  split
  · exact .none
  · exact h.receivers other

/-- The messages ahead of a receiver, once it has skipped what is lost. -/
theorem ahead_eq (h : Tracks retain b l) (r : Receiver) :
    b.ahead { r with next := reach retain l.published r } =
      l.published.drop (reach retain l.published r) := by
  simp only [Broadcast.ahead, h.oldest_eq, h.retained_eq, List.drop_drop]
  congr 1
  simp only [reach]
  omega

/-- What a receiver finds, and where it stands then. -/
theorem receive {key : κ} {r : Receiver} {a : Account} (h : Tracks retain b l)
    (hr : b.receivers[key]? = some r) (hstep : InStep retain l.published r a) :
    ∃ got after, b.receive? key = some got ∧
      got.received = l.answer (outstanding retain l.published a).head? ∧
      got.channel = { b with receivers := b.receivers.insert key after } ∧
      InStep retain l.published after
        (a.give l.published.length (outstanding retain l.published a).head?) := by
  have htake := Broadcast.take_eq { r with next := reach retain l.published r }
    (l.published.drop (reach retain l.published r))
  simp only [← hstep.outstanding_eq] at htake
  simp only [Broadcast.receive?, hr, Option.map_some, Broadcast.catchUp, h.oldest_eq,
    ← reach.eq_1, h.ahead_eq]
  cases hnext : (outstanding retain l.published a).head? with
  | none =>
    rw [hnext, List.length_drop, Nat.add_sub_cancel' hstep.reach_le] at htake
    simp only [htake]
    refine ⟨_, _, rfl, ?_, rfl, hstep.giveNone hnext⟩
    simp only [Ledger.answer, h.closed_eq]
  | some x =>
    rw [hnext] at htake
    simp only [htake]
    exact ⟨_, _, rfl, rfl, rfl, hstep.give hnext⟩

/-- A key has a receiver and an account that are in step, or neither. -/
theorem place_cases (h : Tracks retain b l) (key : κ) :
    (b.receivers[key]? = none ∧ l.accounts[key]? = none) ∨
      ∃ r a, b.receivers[key]? = some r ∧ l.accounts[key]? = some a ∧
        InStep retain l.published r a := by
  have hrel := h.receivers key
  generalize b.receivers[key]? = place at hrel
  generalize l.accounts[key]? = account at hrel
  cases hrel with
  | none => exact .inl ⟨rfl, rfl⟩
  | some hstep => exact .inr ⟨_, _, rfl, rfl, hstep⟩

theorem exists_receiver {key : κ} {a : Account} (h : Tracks retain b l)
    (ha : l.accounts[key]? = some a) :
    ∃ r, b.receivers[key]? = some r ∧ InStep retain l.published r a := by
  rcases h.place_cases key with ⟨-, hnone⟩ | ⟨r, a', hr, ha', hstep⟩
  · rw [ha] at hnone
    cases hnone
  · obtain rfl := Option.some.inj (ha.symm.trans ha')
    exact ⟨r, hr, hstep⟩

/-- Whatever is done next, channel and ledger answer alike. -/
theorem perform (h : Tracks retain b l) (op : ChannelOp κ) :
    Tracks retain (b.perform op).1 (l.perform retain op).1 ∧
      (b.perform op).2 = (l.perform retain op).2 := by
  cases op with
  | publish m => exact ⟨h.publish m, rfl⟩
  | subscribe key topic => exact ⟨h.insert key (InStep.subscribe h.sent_eq topic), rfl⟩
  | unsubscribe key => exact ⟨h.erase key, rfl⟩
  | close => exact ⟨⟨h.capacity_eq, h.sent_eq, h.retained_eq, rfl, h.receivers⟩, rfl⟩
  | receive key =>
    rcases h.place_cases key with ⟨hr, ha⟩ | ⟨r, a, hr, ha, hstep⟩
    · have hnothing : b.receive? key = none := by
        simp only [Broadcast.receive?, hr, Option.map_none]
      simp only [Broadcast.perform, Ledger.perform, hnothing, ha]
      exact ⟨h, trivial⟩
    · obtain ⟨got, after, hgot, hreceived, hchannel, hafter⟩ := h.receive hr hstep
      simp only [Broadcast.perform, Ledger.perform, hgot, ha, hreceived, hchannel]
      exact ⟨h.insert key hafter, trivial⟩

/-- So do they in a whole run. -/
theorem run (h : Tracks retain b l) (ops : List (ChannelOp κ)) :
    Tracks retain (playOut Broadcast.perform b ops).1 (playOut (Ledger.perform retain) l ops).1 ∧
      (playOut Broadcast.perform b ops).2 = (playOut (Ledger.perform retain) l ops).2 := by
  induction ops generalizing b l with
  | nil => exact ⟨h, rfl⟩
  | cons op later ih =>
    obtain ⟨hafter, hanswer⟩ := h.perform op
    obtain ⟨hend, hanswers⟩ := ih hafter
    exact ⟨hend, congrArg₂ List.cons hanswer hanswers⟩

end Tracks

namespace Ledger

variable {retain : Nat} {l : Ledger κ} {key : κ} {a : Account}

/-- Asked again and again, a ledger gives what is outstanding, one after the other. -/
theorem receive_replicate (ha : l.accounts[key]? = some a) (k : Nat) :
    (playOut (perform retain) l (List.replicate k (.receive key))).2 =
      (List.range k).map fun j => some (l.answer (outstanding retain l.published a)[j]?) := by
  induction k generalizing l a with
  | zero => rfl
  | succ k ih =>
    let given := a.give l.published.length (outstanding retain l.published a).head?
    have hlater := ih (a := given)
      (l := { l with accounts := l.accounts.insert key given })
      Std.ExtTreeMap.getElem?_insert_self
    simp only [given, outstanding_give, List.getElem?_tail] at hlater
    simp only [List.replicate_succ, playOut, perform, ha, hlater, List.range_succ_eq_map,
      List.map_cons, List.map_map]
    rw [List.head?_eq_getElem?]
    rfl

/-- A ledger that is open stays open and says so, as long as nobody closes it. -/
theorem perform_open {op : ChannelOp κ} (hopen : l.closed = false) (hop : op ≠ .close) :
    (l.perform retain op).1.closed = false ∧ (l.perform retain op).2 ≠ some .closed := by
  cases op with
  | publish m => exact ⟨hopen, nofun⟩
  | subscribe key topic => exact ⟨hopen, nofun⟩
  | unsubscribe key => exact ⟨hopen, nofun⟩
  | close => exact absurd rfl hop
  | receive key =>
    simp only [perform]
    split
    · exact ⟨hopen, nofun⟩
    · refine ⟨hopen, ?_⟩
      cases (outstanding retain l.published _).head? <;> simp [answer, hopen]

theorem closed_not_mem_run {ops : List (ChannelOp κ)} (hopen : l.closed = false)
    (hops : .close ∉ ops) : some .closed ∉ (playOut (perform retain) l ops).2 := by
  induction ops generalizing l with
  | nil => nofun
  | cons op later ih =>
    obtain ⟨hfirst, hlater⟩ := not_or.1 (List.mem_cons.not.1 hops)
    obtain ⟨hstays, hanswer⟩ : (l.perform retain op).1.closed = false ∧
        (l.perform retain op).2 ≠ some .closed := perform_open hopen (Ne.symm hfirst)
    exact List.not_mem_cons_of_ne_of_not_mem hanswer.symm (ih hstays hlater)

end Ledger

/-- A new channel after a sequence of operations, and its answers to them. -/
def Broadcast.after (n : Nat) (ops : List (ChannelOp κ)) : Broadcast κ × List (Option Received) :=
  playOut Broadcast.perform (Broadcast.ofCapacity n) ops

/-- A new ledger after the same operations: as many of the latest messages can be given as the next
power of two says. -/
def Ledger.after (n : Nat) (ops : List (ChannelOp κ)) : Ledger κ × List (Option Received) :=
  playOut (Ledger.perform n.nextPowerOfTwo) Ledger.empty ops

/-- A subscription is given messages of its topic that were published after it was made, each once
and in the order in which they were published. Whenever it asks, and however often, it gets one
after the other those that are outstanding; after a burst there is one. -/
structure Served (retain : Nat) (b : Broadcast κ) (l : Ledger κ) (key : κ) (a : Account) :
    Prop where
  in_order : a.given.Pairwise (· < ·)
  own : ∀ i ∈ a.given, a.since ≤ i ∧ ∃ m, l.published[i]? = some m ∧ m.topic = a.topic
  drained : ∀ k, (playOut Broadcast.perform b (List.replicate k (.receive key))).2 =
    (List.range k).map fun j => some (l.answer (outstanding retain l.published a)[j]?)
  burst : a.HasBurst l.published → ∃ x ∈ outstanding retain l.published a, a.asked ≤ x.2

theorem Tracks.served {retain : Nat} {b : Broadcast κ} {l : Ledger κ} {key : κ} {a : Account}
    (hretain : 0 < retain) (h : Tracks retain b l) (ha : l.accounts[key]? = some a) :
    Served retain b l key a := by
  obtain ⟨r, hr, hstep⟩ := h.exists_receiver ha
  refine ⟨hstep.in_order, fun i hi => ?_, fun k => ?_, hstep.burst hretain⟩
  · obtain ⟨hsince, -, hown⟩ := hstep.own i hi
    exact ⟨hsince, hown⟩
  · exact (h.run _).2.trans (Ledger.receive_replicate ha k)

namespace Tasks

/-- The listener of a scene marks the cache for an update in its next turn and goes on; only a
shutdown can come before. -/
def Marks (signal : ShutdownSignal) (scene : Scene) : Prop :=
  ∃ turn ∈ listen.turns signal scene .channel,
    turn.next = .ok .channel ∧ turn.world.shared.cache.shouldUpdate = true ∧
      (signal.resolved = false → listen.turns signal scene .channel = [turn])

theorem marks_of_payload {signal : ShutdownSignal} {scene : Scene}
    {got : Broadcast.Reception Nat} {text : String}
    (hgot : scene.shared.channel.receive? scene.own.key = some got)
    (htext : got.received = .payload text) : Marks signal scene := by
  have hreceive : receive scene =
      [⟨mark (scene.setChannel got.channel), .ok .channel,
        got.events ++ [receivedEvent text]⟩] := by
    simp only [receive, hgot, htext]
  have hturns : listen.turns signal scene .channel =
      (returns signal scene).map leaving ++ (receive scene).map leaving := List.map_append
  rw [hreceive] at hturns
  refine ⟨_, hturns ▸ List.mem_append_right _ (List.mem_singleton_self _), rfl, rfl,
    fun hsignal => ?_⟩
  rw [hturns, returns, hsignal]
  rfl

end Tasks

/-- Whatever is published on any topics, subscribed to and received, a channel of any capacity
answers as the ledger does, and does not end while nobody closes it. Its subscribers are served as
the ledger says, and a burst of updates makes the listener mark the cache for an update. -/
theorem updates_delivered (n : Nat) (ops : List (ChannelOp Nat)) :
    (Broadcast.after n ops).2 = (Ledger.after n ops).2 ∧
      (.close ∉ ops → some .closed ∉ (Broadcast.after n ops).2) ∧
      ∀ key a, (Ledger.after n ops).1.accounts[key]? = some a →
        Served n.nextPowerOfTwo (Broadcast.after n ops).1 (Ledger.after n ops).1 key a ∧
          (a.HasBurst (Ledger.after n ops).1.published →
            ∀ signal scene, scene.shared.channel = (Broadcast.after n ops).1 →
              scene.own.key = key → Tasks.Marks signal scene) := by
  have hretain := Nat.pos_of_isPowerOfTwo (Nat.isPowerOfTwo_nextPowerOfTwo n)
  obtain ⟨htracks, hanswers⟩ := (Tracks.start n).run ops
  refine ⟨hanswers, fun hops => ?_, fun key a ha => ?_⟩
  · exact hanswers ▸ Ledger.closed_not_mem_run rfl hops
  · refine ⟨htracks.served hretain ha, fun hburst signal scene hchannel hkey => ?_⟩
    subst hkey
    obtain ⟨r, hr, hstep⟩ := htracks.exists_receiver ha
    obtain ⟨got, -, hgot, hreceived, -, -⟩ := htracks.receive hr hstep
    obtain ⟨x, hx, -⟩ := hstep.burst hretain hburst
    obtain ⟨first, hfirst⟩ := Option.isSome_iff_exists.1
      (List.isSome_head?.2 (List.ne_nil_of_mem hx))
    rw [hfirst] at hreceived
    exact Tasks.marks_of_payload (hchannel ▸ hgot) hreceived

/-- A listener gets its first message between those of another topic, and then falls behind. -/
def laggingOps : List (ChannelOp Nat) :=
  [.subscribe 0 updateTopic, .publish ⟨"other", "x"⟩, .publish ⟨updateTopic, "tag"⟩,
    .publish ⟨"other", "y"⟩, .receive 0, .publish ⟨updateTopic, "acl"⟩,
    .publish ⟨updateTopic, "project"⟩, .publish ⟨updateTopic, "user"⟩]

/-- The first message of the burst is lost, and the others are delivered. -/
theorem updates_delivered_lagging :
    let (b, answers) := Broadcast.after 2 laggingOps
    let l := (Ledger.after 2 laggingOps).1
    let a : Account := ⟨updateTopic, 0, [1], 3⟩
    answers = [none, none, none, none, some (.payload "tag"), none, none, none] ∧
      .close ∉ laggingOps ∧ l.accounts[0]? = some a ∧ a.HasBurst l.published ∧
      (playOut Broadcast.perform b (List.replicate 3 (.receive 0))).2 =
        [some (.payload "project"), some (.payload "user"), some .pending] ∧
      ∀ scene, scene.shared.channel = b → scene.own.key = 0 → Tasks.Marks .none scene := by
  have ha : (Ledger.after 2 laggingOps).1.accounts[0]? = some ⟨updateTopic, 0, [1], 3⟩ := by
    decide +kernel
  have hburst : Account.HasBurst ⟨updateTopic, 0, [1], 3⟩
      (Ledger.after 2 laggingOps).1.published :=
    ⟨by decide +kernel, by decide +kernel⟩
  obtain ⟨hanswers, -, hall⟩ := updates_delivered 2 laggingOps
  obtain ⟨hserved, hmarks⟩ := hall 0 _ ha
  refine ⟨hanswers.trans (by decide +kernel), by decide, ha, hburst,
    (hserved.drained 3).trans (by decide +kernel), hmarks hburst .none⟩

end RefCache
