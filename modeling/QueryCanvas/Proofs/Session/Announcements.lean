import QueryCanvas.Proofs.Session.Pointer

/-!
# What subscribers are told

A session counts its changes, and tells each of them to everyone who is subscribed at that time.
Between its subscription and its leaving a subscriber therefore hears of every change once, under
consecutive numbers, and is told the query text and the progress as they are after the change.
-/

set_option autoImplicit false

namespace QueryCanvas

open Sql

/-- Where a change comes from that a request makes. -/
def Request.origin : Request → Origin
  | .load _ => .load
  | .setFocus _ => .focus
  | .type _ => .text
  | _ => .canvas

/-- The number that a new subscriber is given. -/
def Reply.subscriber? : Reply → Option SubscriberId
  | .subscriber id => some id
  | _ => none

/-- A request in the course of a session, with the session before and after it and what came of
it. -/
structure Turn where
  before : Session
  request : Request
  after : Session
  reply : Reply
  events : List Event

namespace Session

variable {s s' : Session} {n m : Nat} {request : Request} {reply : Reply} {events : List Event}

/-- Whether a session takes a request for a change: it does, unless the request is about subscribers
or about a challenge, or points to what is not there. -/
def counts (s : Session) : Request → Bool
  | .subscribe | .unsubscribe _ | .setChallenge _ => false
  | .setFocus focus => (s.canvas.block? focus).isSome
  | _ => true

/-- What is to be told to a subscriber about a session as it stands: the text in force, which is the
text in the editor if it was refused and that of the canvas otherwise, and how the canvas and the
text in force do in the challenge. -/
def report (s : Session) (origin : Origin) (subscriber : SubscriberId) : Event :=
  { subscriber, revision := s.revision, origin
    sql := if s.override.isSome then s.editor else render s.settings.layout s.canvas
    progress := s.challenge.map fun k => k.progress s.canvas s.textInForce }

/-- The turns of a session at several requests, one after the other. -/
def course (s : Session) : List Request → Fresh (List Turn)
  | [] => return []
  | request :: rest => do
    let (after, reply, events) ← s.run request
    let turns ← after.course rest
    return { before := s, request, after, reply, events } :: turns

/-! ## One turn -/

/-- The subscribers are known by increasing numbers that were given out, and the progress that is
kept is how the canvas and the text in force do in the challenge. -/
structure Attended (s : Session) : Prop where
  ordered : s.subscribers.Pairwise (· < ·)
  given : ∀ id ∈ s.subscribers, id < s.nextSubscriber
  progress : s.progress = s.challenge.map fun k => k.progress s.canvas s.textInForce
  points : s.Points

theorem attended_start (settings : Settings) (catalog : Catalog) :
    (start settings catalog).Attended :=
  ⟨List.Pairwise.nil, nofun, rfl, rfl⟩

/-- A change leaves the count, the subscribers and their numbers to the announcement, and the
challenge as it is. -/
theorem Changes.uncounted {origin : Origin} (h : s.Changes n m request origin s' reply) :
    s'.revision = s.revision ∧ s'.subscribers = s.subscribers ∧
      s'.nextSubscriber = s.nextSubscriber ∧ s'.challenge = s.challenge := by
  cases h with
  | loaded canvas => exact ⟨rfl, rfl, rfl, rfl⟩
  | focused hblock => exact ⟨rfl, rfl, rfl, rfl⟩
  | @typed text what hwhat htakes => cases what <;> exact ⟨rfl, rfl, rfl, rfl⟩
  | edited hm hblock hsettled =>
    obtain ⟨editor, rfl⟩ := hsettled
    exact ⟨rfl, rfl, rfl, rfl⟩
  | drawn hm hedit hsettled =>
    obtain ⟨editor, rfl⟩ := hsettled
    exact ⟨rfl, rfl, rfl, rfl⟩

/-- What changes a session is counted, gives no number to a subscriber, and is announced with its
origin. -/
theorem Changes.counts {origin : Origin} (h : s.Changes n m request origin s' reply) :
    s.counts request = true ∧ origin = request.origin ∧ reply.subscriber? = none ∧
      ∀ id, request ≠ .unsubscribe id := by
  cases h with
  | loaded canvas => exact ⟨rfl, rfl, rfl, nofun⟩
  | focused hblock => exact ⟨Option.isSome_of_eq_some hblock, rfl, rfl, nofun⟩
  | typed hwhat htakes => exact ⟨rfl, rfl, rfl, nofun⟩
  | edited hm hblock hsettled => exact ⟨rfl, rfl, rfl, nofun⟩
  | drawn hm hedit hsettled =>
    cases request <;> first | exact ⟨rfl, rfl, rfl, nofun⟩ | cases hedit

/-- A change is counted and told to every subscriber as things stand after it. -/
theorem Turns.told (h : s.Turns n m request s' reply events) (hs : s.Points)
    (hcounts : s.counts request = true) :
    s'.revision = s.revision + 1 ∧ s'.subscribers = s.subscribers ∧
      s'.nextSubscriber = s.nextSubscriber ∧
        events = s'.subscribers.map (s'.report request.origin) := by
  cases h with
  | changed hchanges =>
    obtain ⟨hrevision, hsubscribers, hnext, -⟩ := hchanges.uncounted
    obtain ⟨-, rfl, -⟩ := hchanges.counts
    exact ⟨congrArg (· + 1) hrevision, hsubscribers, hnext, rfl⟩
  | stayed hblock =>
    have hsome : (s.canvas.block? _).isSome = true := hcounts
    rw [hblock] at hsome
    cases hsome
  | ignored hblock =>
    have hsome : (s.canvas.block? s.focus).isSome = true := hs
    rw [hblock] at hsome
    cases hsome
  | _ => cases hcounts

/-- Whatever is no change is not counted, and nobody is told. -/
theorem Turns.silent (h : s.Turns n m request s' reply events)
    (hcounts : s.counts request = false) : s'.revision = s.revision ∧ events = [] := by
  cases h with
  | changed hchanges =>
    rw [hchanges.counts.1] at hcounts
    cases hcounts
  | ignored hblock => cases hcounts
  | _ => exact ⟨rfl, rfl⟩

/-- Who is subscribed after a request, and which number comes next. -/
theorem Turns.subscribers (h : s.Turns n m request s' reply events) :
    (request = .subscribe ∧ reply.subscriber? = some s.nextSubscriber ∧
        s'.subscribers = s.subscribers ++ [s.nextSubscriber] ∧
          s'.nextSubscriber = s.nextSubscriber + 1) ∨
      (reply.subscriber? = none ∧ s'.nextSubscriber = s.nextSubscriber ∧
        ((∃ id, request = .unsubscribe id ∧ s'.subscribers = s.subscribers.filter (· ≠ id)) ∨
          (∀ id, request ≠ .unsubscribe id) ∧ s'.subscribers = s.subscribers)) := by
  cases h with
  | subscribed => exact .inl ⟨rfl, rfl, rfl, rfl⟩
  | unsubscribed id => exact .inr ⟨rfl, rfl, .inl ⟨id, rfl, rfl⟩⟩
  | changed hchanges =>
    obtain ⟨-, hsubscribers, hnext, -⟩ := hchanges.uncounted
    obtain ⟨-, -, hreply, hother⟩ := hchanges.counts
    exact .inr ⟨hreply, hnext, .inr ⟨hother, hsubscribers⟩⟩
  | _ => exact .inr ⟨rfl, rfl, .inr ⟨nofun, rfl⟩⟩

/-- The challenge after a request is the one that was asked for, and otherwise the same. -/
theorem Turns.challenge (h : s.Turns n m request s' reply events) :
    (∀ k, request = .setChallenge k → s'.challenge = k) ∧
      ((∀ k, request ≠ .setChallenge k) → s'.challenge = s.challenge) := by
  cases h with
  | challenged challenge =>
    exact ⟨fun _ hrequest => Request.setChallenge.inj hrequest, fun h => absurd rfl (h challenge)⟩
  | changed hchanges =>
    obtain ⟨-, -, -, hchallenge⟩ := hchanges.uncounted
    refine ⟨?_, fun _ => hchallenge⟩
    rintro k rfl
    cases hchanges.counts.1
  | _ => exact ⟨nofun, fun _ => rfl⟩

theorem Turns.attended (h : s.Turns n m request s' reply events) (hs : s.Attended) :
    s'.Attended := by
  have hprogress : s'.progress =
      s'.challenge.map fun k => k.progress s'.canvas s'.textInForce := by
    cases h with
    | challenged challenge => rfl
    | changed hchanges => rfl
    | _ => exact hs.progress
  refine ⟨?_, ?_, hprogress, h.points hs.points⟩
  · rcases h.subscribers with
      ⟨-, -, hsubscribers, -⟩ | ⟨-, -, ⟨id, -, hsubscribers⟩ | ⟨-, hsubscribers⟩⟩
    · rw [hsubscribers, List.pairwise_append]
      refine ⟨hs.ordered, List.pairwise_singleton _ _, fun id hid next hnext => ?_⟩
      rw [List.mem_singleton.1 hnext]
      exact hs.given id hid
    · rw [hsubscribers]
      exact hs.ordered.filter _
    · rw [hsubscribers]
      exact hs.ordered
  · rcases h.subscribers with
      ⟨-, -, hsubscribers, hnext⟩ | ⟨-, hnext, ⟨id, -, hsubscribers⟩ | ⟨-, hsubscribers⟩⟩
    · rw [hsubscribers, hnext]
      intro id hid
      rcases List.mem_append.1 hid with hid | hid
      · exact Nat.lt_succ_of_lt (hs.given id hid)
      · rw [List.mem_singleton.1 hid]
        exact Nat.lt_succ_self _
    · rw [hsubscribers, hnext]
      exact fun id hid => hs.given id (List.mem_of_mem_filter hid)
    · rw [hsubscribers, hnext]
      exact hs.given

/-- Among the events of a change there is one for each subscriber. -/
theorem filter_reports {subscribers : List SubscriberId} (h : subscribers.Nodup) (origin : Origin)
    (id : SubscriberId) :
    (subscribers.map (s.report origin)).filter (·.subscriber = id) =
      if id ∈ subscribers then [s.report origin id] else [] := by
  induction subscribers with
  | nil => rfl
  | cons first rest ih =>
    obtain ⟨hfirst, hrest⟩ := List.nodup_cons.1 h
    rw [List.map_cons, List.filter_cons, ih hrest]
    have hsubscriber : (s.report origin first).subscriber = first := rfl
    by_cases hid : first = id
    · subst hid
      simp [hsubscriber, hfirst]
    · simp [hsubscriber, hid, Ne.symm hid]

/-- At a turn a subscriber gets one event if the turn is counted, and none otherwise. -/
theorem Turns.heard (h : s.Turns n m request s' reply events) (hs : s.Attended)
    (id : SubscriberId) :
    events.filter (·.subscriber = id) =
      if s.counts request = true ∧ id ∈ s.subscribers then [s'.report request.origin id]
      else [] := by
  cases hcounts : s.counts request with
  | true =>
    obtain ⟨-, hsubscribers, -, rfl⟩ := h.told hs.points hcounts
    have hnodup : s'.subscribers.Nodup := by
      rw [hsubscribers]
      exact hs.ordered.imp Nat.ne_of_lt
    rw [filter_reports hnodup, hsubscribers]
    simp only [true_and]
  | false =>
    obtain ⟨-, rfl⟩ := h.silent hcounts
    rfl

end Session

/-! ## Several turns -/

/-- Whether a turn is counted as a change. -/
def Turn.counts (t : Turn) : Bool := t.before.counts t.request

/-- The subscriber that comes at a turn. -/
def Turn.subscriber? (t : Turn) : Option SubscriberId := t.reply.subscriber?

/-- What is to be told to a subscriber at a turn. -/
def Turn.report (t : Turn) (subscriber : SubscriberId) : Event :=
  t.after.report t.request.origin subscriber

/-- The events that a subscriber gets in the course of some turns. -/
def heard (turns : List Turn) (subscriber : SubscriberId) : List Event :=
  turns.flatMap fun t => t.events.filter (·.subscriber = subscriber)

theorem heard_append (before after : List Turn) (id : SubscriberId) :
    heard (before ++ after) id = heard before id ++ heard after id := List.flatMap_append

/-- The turns lead from one session to another. -/
inductive Follows : Session → List Turn → Session → Prop
  | nil (s : Session) : Follows s [] s
  | cons {t : Turn} {turns : List Turn} {s' : Session} {n m : Nat}
      (hturn : t.before.Turns n m t.request t.after t.reply t.events)
      (hrest : Follows t.after turns s') : Follows t.before (t :: turns) s'

namespace Follows

variable {s s' : Session} {turns : List Turn} {id : SubscriberId}

theorem yields_course (requests : List Request) : ∀ (s : Session) (n : Nat),
    Yields n (s.course requests) fun turns _ => ∃ s', Follows s turns s' := by
  induction requests with
  | nil =>
    intro s n
    exact Yields.pure ⟨s, .nil s⟩
  | cons request rest ih =>
    intro s n
    refine Yields.bind (s.yields_turns n request) fun p m _ hturn => ?_
    obtain ⟨after, reply, events⟩ := p
    refine Yields.bind (ih after m) fun turns _ _ hrest => Yields.pure ?_
    obtain ⟨s', hrest⟩ := hrest
    exact ⟨s', .cons (t := { before := s, request, after, reply, events }) hturn hrest⟩

theorem split {before after : List Turn} (h : Follows s (before ++ after) s') :
    ∃ mid, Follows s before mid ∧ Follows mid after s' := by
  induction before generalizing s with
  | nil => exact ⟨s, .nil s, h⟩
  | cons t before ih =>
    cases h with
    | cons hturn hrest =>
      obtain ⟨mid, hbefore, hafter⟩ := ih hrest
      exact ⟨mid, .cons hturn hbefore, hafter⟩

/-- Every turn is one of an attended session, and so is what comes after it. -/
theorem attended (h : Follows s turns s') (hs : s.Attended) :
    s'.Attended ∧ ∀ t ∈ turns, t.before.Attended ∧ t.after.Attended ∧
      ∃ n m, t.before.Turns n m t.request t.after t.reply t.events := by
  induction h with
  | nil s => exact ⟨hs, fun _ ht => absurd ht List.not_mem_nil⟩
  | @cons t turns s' n m hturn hrest ih =>
    have hafter := hturn.attended hs
    obtain ⟨hlast, hturns⟩ := ih hafter
    refine ⟨hlast, fun u hu => ?_⟩
    rcases List.mem_cons.1 hu with rfl | hu
    · exact ⟨hs, hafter, n, m, hturn⟩
    · exact hturns u hu

/-- The subscribers are numbered in the order in which they come. -/
theorem numbered (h : Follows s turns s') :
    turns.filterMap Turn.subscriber? =
        List.range' s.nextSubscriber (s'.nextSubscriber - s.nextSubscriber) ∧
      s.nextSubscriber ≤ s'.nextSubscriber := by
  induction h with
  | nil s => simp
  | @cons t turns s' n m hturn hrest ih =>
    obtain ⟨hrange, hle⟩ := ih
    rcases hturn.subscribers with ⟨-, hreply, -, hnext⟩ | ⟨hreply, hnext, -⟩
    · rw [List.filterMap_cons_some (f := Turn.subscriber?) hreply, hrange, hnext]
      rw [hnext] at hle
      refine ⟨?_, Nat.le_of_succ_le hle⟩
      rw [← List.range'_succ, Nat.sub_add_eq, Nat.sub_add_cancel (Nat.sub_pos_of_lt hle)]
    · rw [List.filterMap_cons_none (f := Turn.subscriber?) hreply, hrange, hnext]
      exact ⟨rfl, hnext ▸ hle⟩

/-- The changes are numbered one after the other. -/
theorem revisions (h : Follows s turns s') (hs : s.Attended) :
    (turns.filter Turn.counts).map (·.after.revision) =
      List.range' (s.revision + 1) (turns.filter Turn.counts).length := by
  induction h with
  | nil s => rfl
  | @cons t turns s' n m hturn hrest ih =>
    have hrange := ih (hturn.attended hs)
    cases hcounts : t.counts with
    | true =>
      have hrevision := (hturn.told hs.points hcounts).1
      rw [List.filter_cons_of_pos hcounts, List.map_cons, hrange, hrevision, List.length_cons,
        List.range'_succ]
    | false =>
      have hrevision := (hturn.silent hcounts).1
      rw [List.filter_cons_of_neg (by rw [hcounts]; decide), hrange, hrevision]

/-- A number that is not given out before the end is not told anything. -/
theorem heard_of_not_given (h : Follows s turns s') (hs : s.Attended)
    (hid : s'.nextSubscriber ≤ id) : heard turns id = [] := by
  induction h with
  | nil s => rfl
  | @cons t turns s' n m hturn hrest ih =>
    have hnext := Nat.le_trans (Follows.cons hturn hrest).numbered.2 hid
    have hnone : id ∉ t.before.subscribers := fun hmem =>
      Nat.lt_irrefl _ (Nat.lt_of_lt_of_le (hs.given id hmem) hnext)
    rw [heard, List.flatMap_cons, hturn.heard hs, if_neg fun hboth => hnone hboth.2]
    exact ih (hturn.attended hs) hid

/-- Who has left is not told anything any more. -/
theorem heard_of_left (h : Follows s turns s') (hs : s.Attended) (hid : id < s.nextSubscriber)
    (hleft : id ∉ s.subscribers) : heard turns id = [] := by
  induction h with
  | nil s => rfl
  | @cons t turns s' n m hturn hrest ih =>
    rw [heard, List.flatMap_cons, hturn.heard hs, if_neg fun hboth => hleft hboth.2]
    refine ih (hturn.attended hs) ?_ ?_
    · rcases hturn.subscribers with ⟨-, -, -, hnext⟩ | ⟨-, hnext, -⟩
      · rw [hnext]
        exact Nat.lt_succ_of_lt hid
      · rw [hnext]
        exact hid
    · rcases hturn.subscribers with
        ⟨-, -, hsubscribers, -⟩ | ⟨-, -, ⟨_, -, hsubscribers⟩ | ⟨-, hsubscribers⟩⟩
      · rw [hsubscribers, List.mem_append, List.mem_singleton]
        rintro (hmem | rfl)
        · exact hleft hmem
        · exact Nat.lt_irrefl _ hid
      · rw [hsubscribers]
        exact fun hmem => hleft (List.mem_of_mem_filter hmem)
      · rw [hsubscribers]
        exact hleft

/-- Who does not leave is told of every change, as things stand after it. -/
theorem heard_of_subscribed (h : Follows s turns s') (hs : s.Attended) (hid : id ∈ s.subscribers)
    (hstays : ∀ t ∈ turns, t.request ≠ .unsubscribe id) :
    heard turns id = (turns.filter Turn.counts).map (·.report id) ∧ id ∈ s'.subscribers := by
  induction h with
  | nil s => exact ⟨rfl, hid⟩
  | @cons t turns s' n m hturn hrest ih =>
    obtain ⟨hstay, hstays⟩ := List.forall_mem_cons.1 hstays
    have hafter : id ∈ t.after.subscribers := by
      rcases hturn.subscribers with
        ⟨-, -, hsubscribers, -⟩ | ⟨-, -, ⟨other, hother, hsubscribers⟩ | ⟨-, hsubscribers⟩⟩
      · rw [hsubscribers]
        exact List.mem_append_left _ hid
      · rw [hsubscribers, List.mem_filter]
        refine ⟨hid, decide_eq_true ?_⟩
        rintro rfl
        exact hstay hother
      · rw [hsubscribers]
        exact hid
    obtain ⟨hheard, hlast⟩ := ih (hturn.attended hs) hafter hstays
    refine ⟨?_, hlast⟩
    rw [heard, List.flatMap_cons, hturn.heard hs]
    cases hcounts : t.counts with
    | true =>
      rw [if_pos ⟨hcounts, hid⟩, List.filter_cons_of_pos hcounts, List.map_cons, ← hheard]
      rfl
    | false =>
      have hnone : ¬(t.before.counts t.request = true ∧ id ∈ t.before.subscribers) := by
        rintro ⟨hboth, -⟩
        cases hboth.symm.trans hcounts
      rw [if_neg hnone, List.filter_cons_of_neg (by rw [hcounts]; decide), ← hheard]
      rfl

/-- Who leaves is not told anything from then on. -/
theorem heard_of_leaving (h : Follows s turns s') (hs : s.Attended) (hid : id ∈ s.subscribers)
    (hleaves : ∀ u ∈ turns.head?, u.request = .unsubscribe id) : heard turns id = [] := by
  cases h with
  | nil => rfl
  | @cons u rest _ n m hturn hrest =>
    have hrequest := hleaves u rfl
    have hquiet : ¬(u.before.counts u.request = true ∧ id ∈ u.before.subscribers) := by
      rw [hrequest]
      rintro ⟨⟨⟩, -⟩
    rw [heard, List.flatMap_cons, hturn.heard hs, if_neg hquiet]
    rcases hturn.subscribers with
      ⟨hother, -⟩ | ⟨-, hnext, ⟨other, hother, hsubscribers⟩ | ⟨hother, -⟩⟩
    · cases hother.symm.trans hrequest
    · cases hother.symm.trans hrequest
      refine heard_of_left hrest (hturn.attended hs) ?_ ?_
      · rw [hnext]
        exact hs.given id hid
      · rw [hsubscribers, List.mem_filter]
        rintro ⟨-, hkept⟩
        exact of_decide_eq_true hkept rfl
    · exact absurd hrequest (hother id)

/-- A subscriber is told of every change between its coming and its leaving. -/
theorem heard_between {before during after : List Turn} {t : Turn}
    (h : Follows s (before ++ t :: (during ++ after)) s') (hs : s.Attended)
    (hcomes : t.subscriber? = some id) (hstays : ∀ u ∈ during, u.request ≠ .unsubscribe id)
    (hleaves : ∀ u ∈ after.head?, u.request = .unsubscribe id) :
    heard (before ++ t :: (during ++ after)) id =
        (during.filter Turn.counts).map (·.report id) ∧
      (during.filter Turn.counts).map (·.after.revision) =
        List.range' (t.after.revision + 1) (during.filter Turn.counts).length := by
  obtain ⟨first, hbefore, hrest⟩ := h.split
  obtain ⟨hfirst, -⟩ := hbefore.attended hs
  cases hrest with
  | @cons _ _ _ n m hturn hrest =>
    obtain ⟨-, hreply, hsubscribers, -⟩ | ⟨hreply, -⟩ := hturn.subscribers
    swap
    · cases hreply.symm.trans hcomes
    cases hreply.symm.trans hcomes
    obtain ⟨last, hduring, hafter⟩ := hrest.split
    have hattended := hturn.attended hfirst
    have hmem : t.before.nextSubscriber ∈ t.after.subscribers := by
      rw [hsubscribers]
      exact List.mem_append_right _ (List.mem_singleton_self _)
    obtain ⟨hheard, hlast⟩ := hduring.heard_of_subscribed hattended hmem hstays
    refine ⟨?_, hduring.revisions hattended⟩
    have hnew : t.before.nextSubscriber ∉ t.before.subscribers := fun hold =>
      Nat.lt_irrefl _ (hfirst.given _ hold)
    have hown : t.events.filter (·.subscriber = t.before.nextSubscriber) = [] := by
      rw [hturn.heard hfirst, if_neg fun hboth => hnew hboth.2]
    have hgone := hafter.heard_of_leaving (hduring.attended hattended).1 hlast hleaves
    have hlater : heard (t :: (during ++ after)) t.before.nextSubscriber =
        t.events.filter (·.subscriber = t.before.nextSubscriber) ++
          heard (during ++ after) t.before.nextSubscriber := List.flatMap_cons
    rw [heard_append, heard_of_not_given hbefore hs (Nat.le_refl _), hlater, hown, heard_append,
      hgone, hheard, List.nil_append, List.nil_append, List.append_nil]

end Follows

/-- Changes are counted and announced without gaps and as things stand. -/
structure Announced (turns : List Turn) : Prop where
  /-- A change is counted once, and every subscriber is told of it, in the order in which they
  stand. -/
  told : ∀ t ∈ turns, t.counts = true →
    t.after.revision = t.before.revision + 1 ∧ t.events = t.after.subscribers.map t.report
  /-- What is no change is not counted, and nobody is told. -/
  silent : ∀ t ∈ turns, t.counts = false → t.after.revision = t.before.revision ∧ t.events = []
  /-- The challenge is the one that was asked for last. -/
  challenge : ∀ t ∈ turns, (∀ k, t.request = .setChallenge k → t.after.challenge = k) ∧
    ((∀ k, t.request ≠ .setChallenge k) → t.after.challenge = t.before.challenge)
  /-- The subscribers are numbered in the order in which they come. -/
  numbered : turns.filterMap Turn.subscriber? =
    List.range (turns.filterMap Turn.subscriber?).length
  /-- The subscribers stand in the order of their numbers. -/
  ordered : ∀ t ∈ turns, t.after.subscribers.Pairwise (· < ·)
  /-- From its coming until it leaves, a subscriber gets one event for each change, with the state
  after that change, and the changes have consecutive numbers; before and afterwards it gets
  none. -/
  heard : ∀ (before : List Turn) (t : Turn) (during after : List Turn) (id : SubscriberId),
    turns = before ++ t :: (during ++ after) → t.subscriber? = some id →
    (∀ u ∈ during, u.request ≠ .unsubscribe id) →
    (∀ u ∈ after.head?, u.request = .unsubscribe id) →
      heard turns id = (during.filter Turn.counts).map (·.report id) ∧
        (during.filter Turn.counts).map (·.after.revision) =
          List.range' (t.after.revision + 1) (during.filter Turn.counts).length

/-- The turns of a session from its start on are announced. -/
theorem announced_course (settings : Settings) (catalog : Catalog) (requests : List Request)
    (n : Nat) : Announced ((Session.start settings catalog).course requests n).1 := by
  obtain ⟨s', h⟩ := (Follows.yields_course requests (Session.start settings catalog) n).result
  have hstart := Session.attended_start settings catalog
  obtain ⟨-, hturns⟩ := h.attended hstart
  refine ⟨fun t ht hcounts => ?_, fun t ht hcounts => ?_, fun t ht => ?_, ?_, fun t ht => ?_, ?_⟩
  · obtain ⟨hbefore, -, n, m, hturn⟩ := hturns t ht
    obtain ⟨hrevision, -, -, hevents⟩ := hturn.told hbefore.points hcounts
    exact ⟨hrevision, hevents⟩
  · obtain ⟨-, -, n, m, hturn⟩ := hturns t ht
    exact hturn.silent hcounts
  · obtain ⟨-, -, n, m, hturn⟩ := hturns t ht
    exact hturn.challenge
  · have hnumbered := h.numbered.1
    rw [hnumbered, List.length_range', List.range_eq_range']
    rfl
  · exact (hturns t ht).2.1.ordered
  · rintro before t during after id hsplit hcomes hstays hleaves
    rw [hsplit] at h ⊢
    exact h.heard_between hstart hcomes hstays hleaves

theorem Session.attended_runAll (settings : Settings) (catalog : Catalog)
    (requests : List Request) (n : Nat) :
    ((start settings catalog).runAll requests n).1.Attended :=
  (yields_runAll_turns (I := fun _ s => s.Attended) requests
    (fun _ hturns _ hs => hturns.attended hs) _ n (attended_start settings catalog)).result

/-- Whatever is asked of a session from its start on, changes are counted and announced without gaps
and as things stand, and the progress that is kept is at all times how the canvas and the text in
force do in the challenge. -/
theorem changes_announced (settings : Settings) (catalog : Catalog) (requests : List Request)
    (n : Nat) :
    let s := ((Session.start settings catalog).runAll requests n).1
    Announced ((Session.start settings catalog).course requests n).1 ∧
      s.progress = s.challenge.map fun k => k.progress s.canvas s.textInForce :=
  ⟨announced_course settings catalog requests n,
    (Session.attended_runAll settings catalog requests n).progress⟩

end QueryCanvas
