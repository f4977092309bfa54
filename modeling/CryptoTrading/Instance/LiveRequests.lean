import CryptoTrading.Instance.LiveSessions

/-! # The requests of live instances

An instance that is stopped once the gateway has its requests takes them with it. One that is
stopped earlier leaves a request behind that nobody can unsubscribe.
-/

namespace CryptoTrading

open Runs

/-- The request is in the set of the instance, or a call of `stop_async` has it to unsubscribe. -/
def LiveInstance.Remembers (c : LiveInstance) (guid : Guid) : Prop :=
  guid ∈ c.liveMdRequests ∨ ∃ guids ∈ c.stopCalls, guid ∈ guids

namespace LiveInstance

instance (c : LiveInstance) (guid : Guid) : Decidable (c.Remembers guid) :=
  inferInstanceAs (Decidable (_ ∨ _))

variable {c : LiveInstance} {guid : Guid}

theorem not_remembers_iff :
    ¬ c.Remembers guid ↔ guid ∉ c.liveMdRequests ∧ ∀ guids ∈ c.stopCalls, guid ∉ guids := by
  simp [Remembers]

@[simp] theorem remembers_afterEveryEvent {flat : Bool} :
    (c.afterEveryEvent flat).Remembers guid ↔ c.Remembers guid := by
  simp [Remembers]

theorem not_remembers_stopAsync (h : ¬ c.Remembers guid) :
    ¬ { c with stopCalls := c.stopCalls ++ [c.liveMdRequests] }.Remembers guid := by
  obtain ⟨hlisted, hcalls⟩ := not_remembers_iff.mp h
  refine not_remembers_iff.mpr ⟨hlisted, fun guids hguids => ?_⟩
  rcases List.mem_append.mp hguids with hguids | hguids
  · exact hcalls guids hguids
  · rwa [List.mem_singleton.mp hguids]

theorem not_remembers_pushStop {queue : List LiveControl} {i : ℕ} (h : ¬ c.Remembers guid) :
    ¬ { c with queue, stopCalls := c.stopCalls.eraseIdx i }.Remembers guid := by
  obtain ⟨hlisted, hcalls⟩ := not_remembers_iff.mp h
  exact not_remembers_iff.mpr
    ⟨hlisted, fun guids hguids => hcalls guids (List.mem_of_mem_eraseIdx hguids)⟩

theorem not_remembers_unsubscribe {guid' : Guid} {guids : List Guid} {i : ℕ}
    (h : ¬ c.Remembers guid) (hcall : guid' :: guids ∈ c.stopCalls) :
    guid ≠ guid' ∧ ¬ { c with stopCalls := c.stopCalls.set i guids }.Remembers guid := by
  obtain ⟨hlisted, hcalls⟩ := not_remembers_iff.mp h
  have hnot := hcalls _ hcall
  rw [List.mem_cons, not_or] at hnot
  refine ⟨hnot.1, not_remembers_iff.mpr ⟨hlisted, fun guids' hguids' => ?_⟩⟩
  rcases List.mem_or_eq_of_mem_set hguids' with hguids' | rfl
  · exact hcalls guids' hguids'
  · exact hnot.2

end LiveInstance

namespace LiveSessions

variable {n : ℕ} (s : LiveSessions n)

/-- A call of `stop_async` begins once the instance has handled its start requests and the gateway
its live ones, and nobody starts the instance before the call has returned. -/
def StopsInTime (s : LiveSessions n) : LiveSessionStep n → Prop
  | .runAsync k => (s.instances k).stopCalls = []
  | .stopAsync k => .start ∉ (s.instances k).queue ∧
      ∀ r ∈ s.requests, r.guid ∉ (s.instances k).liveMdRequests
  | _ => True

instance : (x : LiveSessionStep n) → Decidable (s.StopsInTime x)
  | .runAsync _ => inferInstanceAs (Decidable (_ = _))
  | .stopAsync _ => inferInstanceAs (Decidable (_ ∧ _))
  | .stopCall .. | .handle .. | .other .. | .request | .connection _ =>
    inferInstanceAs (Decidable True)

/-- No request is left behind when the instance stops: `pending` are those that the gateway has
still to handle, `live` the ones it has. -/
structure StopsClean (pending live : List LiveMDRequest) (c : LiveInstance) : Prop where
  stopping : .stop ∈ c.queue → ∀ r ∈ pending ++ live, r.guid ∉ c.liveMdRequests
  called : c.stopCalls ≠ [] → .start ∉ c.queue ∧ ∀ r ∈ pending, r.guid ∉ c.liveMdRequests
  walked : ∀ guids ∈ c.stopCalls, ∀ r ∈ live, r.guid ∈ c.liveMdRequests → r.guid ∈ guids
  ordered : c.queue.Pairwise fun a b => a = .start → b = .start

/-- Each request is one that an instance remembers, and not one that stops. -/
structure Covered (s : LiveSessions n) : Prop where
  owned : ∀ r ∈ s.requested, ∃ k, r.guid ∈ (s.instances k).liveMdRequests ∧
    r.symbolName = (s.instances k).symbolName
  stops : ∀ k, StopsClean s.requests s.gateway.liveRequests (s.instances k)

structure Orphaned (s : LiveSessions n) (r : LiveMDRequest) : Prop where
  held : s.gateway.liveRequests = [r]
  number : r.guid < s.nextRequest
  forgotten : ∀ k, ¬ (s.instances k).Remembers r.guid

/-- Nobody starts the instance once a call of `stop_async` has begun. -/
def NotRestarted (k : Fin n) (xs : List (LiveSessionStep n)) : Prop :=
  xs.Pairwise fun x y => x = .stopAsync k → y ≠ .runAsync k

instance {k : Fin n} {xs : List (LiveSessionStep n)} : Decidable (NotRestarted k xs) :=
  inferInstanceAs (Decidable (xs.Pairwise _))

variable {s} {s' : LiveSessions n} {x : LiveSessionStep n} {xs : List (LiveSessionStep n)}
  {r : LiveMDRequest} {pending pending' live live' : List LiveMDRequest} {k j : Fin n}
  {c : LiveInstance} {flat : Bool} {queue : List LiveControl} {guid : Guid} {guids : List Guid}
  {i : ℕ}

theorem StopsClean.mono (h : StopsClean pending live c) (hpending : ∀ r ∈ pending', r ∈ pending)
    (hlive : ∀ r ∈ live', r ∈ pending ++ live) : StopsClean pending' live' c where
  stopping hstop r hr := by
    rcases List.mem_append.mp hr with hr | hr
    · exact h.stopping hstop r (List.mem_append_left _ (hpending r hr))
    · exact h.stopping hstop r (hlive r hr)
  called hcalls := ⟨(h.called hcalls).1, fun r hr => (h.called hcalls).2 r (hpending r hr)⟩
  walked guids hguids r hr hlisted := by
    rcases List.mem_append.mp (hlive r hr) with hr | hr
    · exact absurd hlisted ((h.called (List.ne_nil_of_mem hguids)).2 r hr)
    · exact h.walked guids hguids r hr hlisted
  ordered := h.ordered

theorem StopsClean.runAsync (h : StopsClean pending live c) (hcalls : c.stopCalls = []) :
    StopsClean pending live { c with queue := c.queue ++ [.start] } where
  stopping hstop := h.stopping (by simpa using hstop)
  called hne := absurd hcalls hne
  walked := h.walked
  ordered := by simpa [List.pairwise_append] using h.ordered

theorem StopsClean.stopAsync (h : StopsClean pending live c) (hstarted : .start ∉ c.queue)
    (hpending : ∀ r ∈ pending, r.guid ∉ c.liveMdRequests) :
    StopsClean pending live { c with stopCalls := c.stopCalls ++ [c.liveMdRequests] } where
  stopping := h.stopping
  called _ := ⟨hstarted, hpending⟩
  walked guids hguids r hr hlisted := by
    rcases List.mem_append.mp hguids with hguids | hguids
    · exact h.walked guids hguids r hr hlisted
    · rwa [List.mem_singleton.mp hguids]
  ordered := h.ordered

/-- A call that has nothing left to unsubscribe leaves no request behind. -/
theorem StopsClean.pushStop (h : StopsClean pending live c) (hcall : [] ∈ c.stopCalls) :
    StopsClean pending live
      { c with queue := c.queue ++ [.stop], stopCalls := c.stopCalls.eraseIdx i } where
  stopping _ r hr hlisted := by
    rcases List.mem_append.mp hr with hr | hr
    · exact (h.called (List.ne_nil_of_mem hcall)).2 r hr hlisted
    · cases h.walked [] hcall r hr hlisted
  called hcalls := by
    obtain ⟨hstarted, hpending⟩ := h.called (List.ne_nil_of_mem hcall)
    exact ⟨by simpa using hstarted, hpending⟩
  walked guids hguids := h.walked guids (List.mem_of_mem_eraseIdx hguids)
  ordered := by
    refine List.pairwise_append.mpr ⟨h.ordered, List.pairwise_singleton .., ?_⟩
    rintro a ha b - rfl
    exact absurd ha (h.called (List.ne_nil_of_mem hcall)).1

theorem StopsClean.unsubscribe (h : StopsClean pending live c)
    (hcall : guid :: guids ∈ c.stopCalls) :
    StopsClean pending (live.filter (·.guid ≠ guid))
      { c with stopCalls := c.stopCalls.set i guids } where
  stopping hstop r hr :=
    h.stopping hstop r ((List.filter_sublist.append_left _).subset hr)
  called _ := h.called (List.ne_nil_of_mem hcall)
  walked guids' hguids' r hr hlisted := by
    obtain ⟨hr, hne⟩ := List.mem_filter.mp hr
    rcases List.mem_or_eq_of_mem_set hguids' with hguids' | rfl
    · exact h.walked guids' hguids' r hr hlisted
    · exact (List.mem_cons.mp (h.walked _ hcall r hr hlisted)).resolve_left (by simpa using hne)
  ordered := h.ordered

theorem StopsClean.afterEveryEvent (h : StopsClean pending live c) :
    StopsClean pending live (c.afterEveryEvent flat) where
  stopping := by simpa using h.stopping
  called := by simpa using h.called
  walked := by simpa using h.walked
  ordered := by simpa using h.ordered

/-- No call is in progress while a start is to be handled, and no stop waits behind it. -/
theorem StopsClean.handleStart (h : StopsClean pending live c)
    (hqueue : c.queue = .start :: queue) :
    StopsClean (pending ++ [r]) live
      { c with queue, liveMdRequests := r.guid :: c.liveMdRequests } := by
  have hordered := h.ordered
  rw [hqueue, List.pairwise_cons] at hordered
  have hcalls : c.stopCalls = [] := by
    by_contra hne
    exact (h.called hne).1 (by simp [hqueue])
  refine ⟨fun hstop => ?_, fun hne => absurd hcalls hne, by simp [hcalls], hordered.2⟩
  cases hordered.1 .stop hstop rfl

theorem StopsClean.concat (h : StopsClean pending live c) (hr : r.guid ∉ c.liveMdRequests) :
    StopsClean (pending ++ [r]) live c where
  stopping hstop r' hr' := by
    rcases List.mem_append.mp hr' with hr' | hr'
    · rcases List.mem_append.mp hr' with hr' | hr'
      · exact h.stopping hstop r' (List.mem_append_left _ hr')
      · rwa [List.mem_singleton.mp hr']
    · exact h.stopping hstop r' (List.mem_append_right _ hr')
  called hcalls := by
    refine ⟨(h.called hcalls).1, fun r' hr' => ?_⟩
    rcases List.mem_append.mp hr' with hr' | hr'
    · exact (h.called hcalls).2 r' hr'
    · rwa [List.mem_singleton.mp hr']
  walked := h.walked
  ordered := h.ordered

theorem StopsClean.handleStop (h : StopsClean pending live c) (hqueue : c.queue = .stop :: queue) :
    StopsClean pending live
      { c with queue, liveMdRequests := [], stopRequestHandled := true } := by
  have hordered := h.ordered
  rw [hqueue, List.pairwise_cons] at hordered
  refine ⟨by simp, fun hcalls => ⟨fun hstart => ?_, by simp⟩, by simp, hordered.2⟩
  exact (h.called hcalls).1 (by simp [hqueue, hstart])

theorem Covered.shrink (h : s.Covered) (hinstances : s'.instances = s.instances)
    (hrequests : ∀ r ∈ s'.requests, r ∈ s.requests)
    (hlive : ∀ r ∈ s'.gateway.liveRequests, r ∈ s.requested) : s'.Covered := by
  refine ⟨fun r hr => ?_, fun k => ?_⟩
  · rw [hinstances]
    rcases List.mem_append.mp hr with hr | hr
    · exact h.owned r (List.mem_append_left _ (hrequests r hr))
    · exact h.owned r (hlive r hr)
  · rw [hinstances]
    exact (h.stops k).mono hrequests hlive

theorem Covered.setInstance (h : s.Covered)
    (hlisted : c.liveMdRequests = (s.instances k).liveMdRequests)
    (hsymbol : c.symbolName = (s.instances k).symbolName)
    (hc : StopsClean s.requests s.gateway.liveRequests c) : (s.setInstance k c).Covered := by
  refine ⟨fun r hr => ?_, forall_setInstance h.stops hc⟩
  obtain ⟨j, hguid, hname⟩ := h.owned r hr
  refine ⟨j, ?_⟩
  rcases eq_or_ne j k with rfl | hne
  · rw [instances_setInstance_self, hlisted, hsymbol]
    exact ⟨hguid, hname⟩
  · rw [instances_setInstance_of_ne hne]
    exact ⟨hguid, hname⟩

theorem Covered.handleStart (h : s.Covered) (hn : s.Numbered)
    (hqueue : (s.instances k).queue = .start :: queue) :
    (s.handleStart k { s.instances k with queue } flat).Covered := by
  refine ⟨fun r hr => ?_, ?_⟩
  · have hold : r ∈ s.requested ∨ r = ⟨s.nextRequest, (s.instances k).symbolName⟩ := by
      simp only [LiveSessions.handleStart, requested, List.mem_append, List.mem_singleton] at hr ⊢
      tauto
    rcases hold with hr | rfl
    · obtain ⟨j, hguid, hname⟩ := h.owned r hr
      refine ⟨j, ?_⟩
      rcases eq_or_ne j k with rfl | hne
      · simp [LiveSessions.handleStart, instances_setInstance_self, hguid, hname]
      · simp [LiveSessions.handleStart, instances_setInstance_of_ne hne, hguid, hname]
    · exact ⟨k, by simp [LiveSessions.handleStart, instances_setInstance_self]⟩
  · refine forall_setInstance (fun j => (h.stops j).concat ?_)
      ((h.stops k).handleStart hqueue).afterEveryEvent
    exact fun hguid => absurd (hn.listed j _ hguid) (lt_irrefl _)

theorem Covered.handleStop (h : s.Covered) (hqueue : (s.instances k).queue = .stop :: queue) :
    (s.handleStop k { s.instances k with queue } flat).Covered := by
  refine ⟨fun r hr => ?_, forall_setInstance h.stops
    ((h.stops k).handleStop hqueue).afterEveryEvent⟩
  obtain ⟨j, hguid, hname⟩ := h.owned r hr
  have hne : j ≠ k := by
    rintro rfl
    exact (h.stops j).stopping (by simp [hqueue]) r hr hguid
  refine ⟨j, ?_⟩
  rw [LiveSessions.handleStop, instances_setInstance_of_ne hne]
  exact ⟨hguid, hname⟩

theorem Covered.step (h : s.Covered) (hn : s.Numbered) (hok : s.StopsInTime x)
    (hs' : s.step x = some s') : s'.Covered := by
  cases effect_step hn.kept hs' with
  | runAsync k => exact h.setInstance rfl rfl ((h.stops k).runAsync hok)
  | stopAsync k => exact h.setInstance rfl rfl ((h.stops k).stopAsync hok.1 hok.2)
  | pushStop k i hcall => exact h.setInstance rfl rfl ((h.stops k).pushStop hcall)
  | unsubscribe k i gateway hcall hkept hlive =>
    have hshrink : { s with gateway }.Covered := by
      refine h.shrink rfl (fun _ hr => hr) fun r hr => List.mem_append_right _ ?_
      rw [hlive] at hr
      exact List.mem_of_mem_filter hr
    refine hshrink.setInstance rfl rfl ?_
    rw [hlive]
    exact (h.stops k).unsubscribe hcall
  | handleStart k flat hqueue => exact h.handleStart hn hqueue
  | handleStop k flat hqueue => exact h.handleStop hqueue
  | other k flat => exact h.setInstance (by simp) (by simp) (h.stops k).afterEveryEvent
  | gateway x gateway requests hkept hrequests hlive hheld => exact h.shrink rfl hrequests hlive

theorem covered_init (symbols : Fin n → String) : (init symbols).Covered :=
  ⟨by simp [init, requested], fun k => ⟨by simp [init], by simp [init], by simp [init],
    by simp [init]⟩⟩

theorem Orphaned.setInstance (h : s.Orphaned r) (hc : ¬ c.Remembers r.guid) :
    (s.setInstance k c).Orphaned r :=
  ⟨h.held, h.number, forall_setInstance (P := fun _ c => ¬ c.Remembers r.guid) h.forgotten hc⟩

/-- Nobody unsubscribes it, and nothing is subscribed beside it. -/
theorem Orphaned.step (h : s.Orphaned r) (hn : s.Numbered) (hs' : s.step x = some s') :
    s'.Orphaned r := by
  cases effect_step hn.kept hs' with
  | runAsync k => exact h.setInstance (h.forgotten k)
  | stopAsync k => exact h.setInstance (LiveInstance.not_remembers_stopAsync (h.forgotten k))
  | pushStop k i hcall =>
    exact h.setInstance (LiveInstance.not_remembers_pushStop (h.forgotten k))
  | unsubscribe k i gateway hcall hkept hlive =>
    obtain ⟨hne, hforgets⟩ := LiveInstance.not_remembers_unsubscribe (h.forgotten k) hcall
    refine ⟨?_, h.number, (h.setInstance hforgets).forgotten⟩
    rw [hlive, h.held, List.filter_cons_of_pos (by simpa using hne), List.filter_nil]
  | handleStart k flat hqueue =>
    obtain ⟨hlisted, hcalls⟩ := LiveInstance.not_remembers_iff.mp (h.forgotten k)
    refine ⟨h.held, Nat.lt_succ_of_lt h.number, ?_⟩
    refine forall_setInstance (P := fun _ c => ¬ c.Remembers r.guid) h.forgotten ?_
    rw [LiveInstance.remembers_afterEveryEvent, LiveInstance.not_remembers_iff, List.mem_cons,
      not_or]
    exact ⟨⟨h.number.ne, hlisted⟩, hcalls⟩
  | handleStop k flat hqueue =>
    obtain ⟨-, hcalls⟩ := LiveInstance.not_remembers_iff.mp (h.forgotten k)
    refine h.setInstance ?_
    rw [LiveInstance.remembers_afterEveryEvent, LiveInstance.not_remembers_iff]
    exact ⟨List.not_mem_nil, hcalls⟩
  | other k flat => exact h.setInstance (by simpa using h.forgotten k)
  | gateway x gateway requests hkept hrequests hlive hheld =>
    exact ⟨(hheld (by simp [h.held])).trans h.held, h.number, h.forgotten⟩

/-- An instance that is not started again once stopping has begun, which `called` says. -/
structure WindsDown (called : Prop) (c : LiveInstance) : Prop where
  fresh : ¬ called → c.stopCalls = [] ∧ .stop ∉ c.queue ∧ ¬ c.stopRequestHandled
  ordered : c.queue.Pairwise fun a b => a = .stop → b = .stop
  handled : c.stopRequestHandled → .start ∉ c.queue ∧ c.liveMdRequests = []

namespace WindsDown

variable {called called' : Prop}

theorem mono (h : WindsDown called c) (hcalled : called → called') : WindsDown called' c :=
  ⟨fun hnot => h.fresh (mt hcalled hnot), h.ordered, h.handled⟩

theorem runAsync (h : WindsDown called c) (hnot : ¬ called) :
    WindsDown called { c with queue := c.queue ++ [.start] } := by
  obtain ⟨hcalls, hstop, hhandled⟩ := h.fresh hnot
  refine ⟨fun _ => ⟨hcalls, by simpa using hstop, hhandled⟩, ?_, fun hdone => absurd hdone hhandled⟩
  refine List.pairwise_append.mpr ⟨h.ordered, List.pairwise_singleton .., ?_⟩
  rintro a ha b - rfl
  exact absurd ha hstop

theorem stopAsync (h : WindsDown called c) :
    WindsDown True { c with stopCalls := c.stopCalls ++ [c.liveMdRequests] } :=
  ⟨fun hnot => absurd trivial hnot, h.ordered, h.handled⟩

theorem pushStop (h : WindsDown called c) (hcalls : c.stopCalls ≠ []) :
    WindsDown called
      { c with queue := c.queue ++ [.stop], stopCalls := c.stopCalls.eraseIdx i } := by
  refine ⟨fun hnot => absurd (h.fresh hnot).1 hcalls, ?_, fun hdone => ?_⟩
  · exact List.pairwise_append.mpr ⟨h.ordered, List.pairwise_singleton .., by simp⟩
  · exact ⟨by simpa using (h.handled hdone).1, (h.handled hdone).2⟩

theorem unsubscribe (h : WindsDown called c) (hcalls : c.stopCalls ≠ []) :
    WindsDown called { c with stopCalls := c.stopCalls.set i guids } :=
  ⟨fun hnot => absurd (h.fresh hnot).1 hcalls, h.ordered, h.handled⟩

theorem afterEveryEvent (h : WindsDown called c) : WindsDown called (c.afterEveryEvent flat) where
  fresh := by simpa using h.fresh
  ordered := by simpa using h.ordered
  handled := by simpa using h.handled

theorem handleStart (h : WindsDown called c) (hqueue : c.queue = .start :: queue) :
    WindsDown called { c with queue, liveMdRequests := guid :: c.liveMdRequests } := by
  obtain ⟨hfresh, hordered, hhandled⟩ := h
  rw [hqueue] at hfresh hordered hhandled
  refine ⟨fun hnot => ?_, (List.pairwise_cons.mp hordered).2, fun hdone => ?_⟩
  · simpa using hfresh hnot
  · exact absurd List.mem_cons_self (hhandled hdone).1

theorem handleStop (h : WindsDown called c) (hqueue : c.queue = .stop :: queue) :
    WindsDown called { c with queue, liveMdRequests := [], stopRequestHandled := true } := by
  obtain ⟨hfresh, hordered, -⟩ := h
  rw [hqueue] at hfresh hordered
  obtain ⟨hstops, hordered⟩ := List.pairwise_cons.mp hordered
  refine ⟨fun hnot => absurd List.mem_cons_self (hfresh hnot).2.1, hordered, fun _ => ⟨?_, rfl⟩⟩
  intro hstart
  cases hstops .start hstart rfl

theorem setInstance (h : WindsDown called (s.instances k)) (hc : j = k → WindsDown called c) :
    WindsDown called ((s.setInstance j c).instances k) := by
  rcases eq_or_ne j k with rfl | hne
  · rw [instances_setInstance_self]
    exact hc rfl
  · rwa [instances_setInstance_of_ne hne.symm]

theorem step (h : WindsDown called (s.instances k)) (hn : s.Numbered)
    (hrestart : x = .runAsync k → ¬ called) (hs' : s.step x = some s') :
    WindsDown (called ∨ x = .stopAsync k) (s'.instances k) := by
  have hkeep : WindsDown (called ∨ x = .stopAsync k) (s.instances k) := h.mono .inl
  cases effect_step hn.kept hs' with
  | runAsync j =>
    refine hkeep.setInstance ?_
    rintro rfl
    exact (h.runAsync (hrestart rfl)).mono .inl
  | stopAsync j =>
    refine hkeep.setInstance ?_
    rintro rfl
    exact h.stopAsync.mono fun _ => .inr rfl
  | pushStop j i hcall =>
    refine hkeep.setInstance ?_
    rintro rfl
    exact hkeep.pushStop (List.ne_nil_of_mem hcall)
  | unsubscribe j i gateway hcall hkept hlive =>
    refine hkeep.setInstance ?_
    rintro rfl
    exact hkeep.unsubscribe (List.ne_nil_of_mem hcall)
  | handleStart j flat hqueue =>
    refine hkeep.setInstance ?_
    rintro rfl
    exact (hkeep.handleStart hqueue).afterEveryEvent
  | handleStop j flat hqueue =>
    refine hkeep.setInstance ?_
    rintro rfl
    exact (hkeep.handleStop hqueue).afterEveryEvent
  | other j flat =>
    refine hkeep.setInstance ?_
    rintro rfl
    exact hkeep.afterEveryEvent
  | gateway x gateway requests hkept hrequests hlive hheld => exact hkeep

end WindsDown

theorem windsDown_after (symbols : Fin n → String) (hk : NotRestarted k xs) :
    ∀ s ∈ after next (some (init symbols)) xs,
      WindsDown (.stopAsync k ∈ xs) (s.instances k) := by
  induction xs using List.reverseRecOn with
  | nil =>
    rintro s ⟨⟩
    exact ⟨by simp [init], by simp [init], by simp [init]⟩
  | append_singleton xs x ih =>
    obtain ⟨hpre, -, hlast⟩ := List.pairwise_append.mp hk
    intro s' hs'
    rw [after_concat] at hs'
    obtain ⟨s, hs, hstep⟩ := Option.bind_eq_some_iff.mp hs'
    have hrestart : x = .runAsync k → .stopAsync k ∉ xs := fun hx hmem =>
      hlast _ hmem x List.mem_cons_self rfl hx
    have hn := numbered_after (numbered_init symbols) s hs
    refine ((ih hpre s hs).step hn hrestart hstep).mono ?_
    rintro (hmem | rfl) <;> simp [*]

/--
As long as `stop_async` is called only once the gateway has handled the requests of the instance,
and the instance is not started under it, the gateway has and is going to handle requests only
that an instance remembers, and only topics of such instances are subscribed. An instance that has
handled its stop remembers none, unless it is started again.
-/
theorem requested_run (symbols : Fin n → String) (xs : List (LiveSessionStep n))
    (hok : Meets next (fun state x => ∀ s ∈ state, s.StopsInTime x) (some (init symbols)) xs) :
    ∀ s ∈ after next (some (init symbols)) xs,
      (∀ r ∈ s.requested, ∃ k, r.guid ∈ (s.instances k).liveMdRequests ∧
        r.symbolName = (s.instances k).symbolName) ∧
      (∀ client ∈ s.gateway.wsClient, ∀ topic ∈ client.topics, ∃ k,
        (s.instances k).liveMdRequests ≠ [] ∧
        topic = "publicTrade." ++ (s.instances k).symbolName) ∧
      ∀ k, NotRestarted k xs → (s.instances k).stopRequestHandled →
        (s.instances k).liveMdRequests = [] := by
  intro s hs
  have hcovered : ∀ s ∈ after next (some (init symbols)) xs, s.Numbered ∧ s.Covered := by
    refine hok.invariant_tryStep (fun s x s' h hok hstep => ?_)
      ⟨numbered_init symbols, covered_init symbols⟩
    exact ⟨h.1.step hstep, h.2.step h.1 hok hstep⟩
  obtain ⟨hn, hc⟩ := hcovered s hs
  refine ⟨hc.owned, fun client hclient topic htopic => ?_,
    fun k hk hhandled => ((windsDown_after symbols hk s hs).handled hhandled).2⟩
  have hlive : topic ∈ s.gateway.liveTopics := by
    rcases hn.kept.topics client hclient with htopics | htopics
    · rw [htopics] at htopic
      cases htopic
    · rwa [htopics] at htopic
  obtain ⟨r, hr, rfl⟩ := List.mem_map.mp hlive
  obtain ⟨k, hguid, hname⟩ := hc.owned r (List.mem_append_right _ hr)
  exact ⟨k, List.ne_nil_of_mem hguid, by rw [LiveMDRequest.topic, hname]⟩

def twoSymbols (k : Fin 2) : String := if k = 0 then "BTCUSDT" else "ETHUSDT"

/-- The connection opens and two instances run, the second after the first. -/
def oneAfterTheOther : List (LiveSessionStep 2) :=
  [.connection .replaceClient, .connection .opened, .connection (.resubscribe true),
    .runAsync 0, .handle 0 true, .request, .stopAsync 0, .stopCall 0 0, .stopCall 0 0,
    .handle 0 true, .runAsync 1, .handle 1 true, .request]

/-- The second instance gets its prices. -/
theorem requested_run_two :
    ∃ s ∈ after next (some (init twoSymbols)) oneAfterTheOther,
      (s.instances 0).stopped ∧ s.gateway.liveRequests = [⟨2, "ETHUSDT"⟩] ∧
        (∀ r ∈ s.requested, ∃ k, r.guid ∈ (s.instances k).liveMdRequests ∧
          r.symbolName = (s.instances k).symbolName) ∧
        (s.instances 0).liveMdRequests = [] := by
  have hstate : (after next (some (init twoSymbols)) oneAfterTheOther).map
      (fun s => ((s.instances 0).stopRequestHandled, (s.instances 0).stopped,
        s.gateway.liveRequests)) = some (true, true, [⟨2, "ETHUSDT"⟩]) := by decide +kernel
  obtain ⟨s, hs, heq⟩ := Option.map_eq_some_iff.mp hstate
  simp only [Prod.mk.injEq] at heq
  obtain ⟨hhandled, hstopped, hlive⟩ := heq
  obtain ⟨howned, -, hforgets⟩ := requested_run _ _ (by decide +kernel) s hs
  exact ⟨s, hs, hstopped, hlive, howned, hforgets 0 (by decide +kernel) hhandled⟩

/--
A request that the gateway has when no instance remembers it, and no call of `stop_async` either,
stays there in every continuation of the run, and so no instance's request is taken any more.
-/
theorem orphaned_forever (symbols : Fin n → String) (xs ys : List (LiveSessionStep n)) :
    ∀ s ∈ after next (some (init symbols)) xs, ∀ r ∈ s.gateway.liveRequests,
      (∀ k, ¬ (s.instances k).Remembers r.guid) →
      ∀ s' ∈ after next (some s) ys, s'.gateway.liveRequests = [r] ∧
        (∀ k, ¬ (s'.instances k).Remembers r.guid) ∧
        ∀ client ∈ s'.gateway.wsClient, client.topics = [] ∨ client.topics = [r.topic] := by
  intro s hs r hr hforgotten
  have hn := numbered_after (numbered_init symbols) s hs
  have horphaned : s.Orphaned r := by
    refine ⟨?_, hn.requested r (List.mem_append_right _ hr), hforgotten⟩
    obtain ⟨r', hr'⟩ := List.length_eq_one_iff.mp
      (le_antisymm hn.kept.one (List.length_pos_of_mem hr))
    rw [hr', List.mem_singleton] at hr
    rw [hr', hr]
  intro s' hs'
  have hys : s'.Numbered ∧ s'.Orphaned r :=
    after_tryStep_invariant (I := fun s => s.Numbered ∧ s.Orphaned r)
      (fun _ _ _ h hstep => ⟨h.1.step hstep, h.2.step h.1 hstep⟩) ⟨hn, horphaned⟩ s' hs'
  obtain ⟨hn', hheld, -, hforgotten'⟩ := hys
  refine ⟨hheld, hforgotten', fun client hclient => ?_⟩
  have htopics := hn'.kept.topics client hclient
  rwa [LiveGateway.liveTopics, hheld] at htopics

/-- The first instance is stopped before the gateway has handled its request, and finishes. -/
def stoppedEarly : List (LiveSessionStep 2) :=
  [.connection .replaceClient, .connection .opened, .connection (.resubscribe true),
    .runAsync 0, .handle 0 true, .stopAsync 0, .stopCall 0 0, .request, .stopCall 0 0,
    .handle 0 true]

/-- The second instance never gets its prices. -/
theorem orphaned_forever_early :
    ∃ s ∈ after next (some (init twoSymbols)) stoppedEarly,
      (s.instances 0).stopped ∧ ∀ ys, ∀ s' ∈ after next (some s) ys,
        s'.gateway.liveRequests = [⟨1, "BTCUSDT"⟩] := by
  have hstate : (after next (some (init twoSymbols)) stoppedEarly).map
      (fun s => ((s.instances 0).stopped, s.gateway.liveRequests,
        decide (∀ k, ¬ (s.instances k).Remembers 1))) =
        some (true, [⟨1, "BTCUSDT"⟩], true) := by decide +kernel
  obtain ⟨s, hs, heq⟩ := Option.map_eq_some_iff.mp hstate
  simp only [Prod.mk.injEq, decide_eq_true_eq] at heq
  obtain ⟨hstopped, hlive, hforgotten⟩ := heq
  refine ⟨s, hs, hstopped, fun ys s' hs' => ?_⟩
  exact (orphaned_forever _ stoppedEarly ys s hs ⟨1, "BTCUSDT"⟩ (by simp [hlive]) hforgotten
    s' hs').1

end LiveSessions

end CryptoTrading
