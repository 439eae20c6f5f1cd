/-
**Somebody is about to act.**

For a request that waits in a map, and for a mutex that is held, there is a goroutine that will take
care of it: the clean-up of the agent it was sent to, the goroutine that announces its response,
`handleResponseQueue`, the holder of the mutex. For requests in flight this depends on how requests are
handed over: a request that is taken for an agent whose stream is done, or whose stream ends before the
request is recorded, may be recorded after the clean-up.

* `CleanHandOver` — the runs in which that does not happen, and in which nothing panics.
* `Settling` — the invariant of these runs (`settling_step`).
-/

import Kubecc.Scheduler.Carriers

namespace Kubecc.Scheduler

open Kubecc.Lib Kubecc.Go

/-- The agent to which a goroutine hands over a request that is not recorded as in flight. -/
def Proc.handing : Proc → Option AgentId
  | .router (.holding a _ _) => some a
  | .agent a (.send (.received _)) | .agent a (.send (.loaded _ _)) => some a
  | _ => none

/-- **No hand-over to an agent that is gone**: a request is taken only for an agent whose stream is not
done, no stream ends while a request is handed over to its agent, and nothing panics. -/
def CleanHandOver (config : State) : Event → Prop
  | .receive agent _ => config.mem.done (.receiver agent) = false
  | .disconnect (.receiver agent) => ∀ proc ∈ config.procs, proc.handing ≠ some agent
  | .panic => False
  | _ => True

def Party.agent : Party → Option AgentId
  | .receiver a => some a
  | .sender _ => none

def Proc.worksFor : Proc → Option AgentId
  | .agent a _ | .router (.holding a _ _) => some a
  | .router (.add party _) | .router (.attaching party _ _) | .router (.found party _ _ _)
  | .router (.attached party _) => party.agent
  | _ => none

def Proc.sends : Proc → Option AgentId
  | .agent a (.send _) => some a
  | _ => none

/-- The goroutine will see to this request, in flight under this agent. -/
def Proc.Settles (agent : Option AgentId) (id : GoString) : Proc → Prop
  | .queue (.got resp) => resp.requestID = id
  | .call _ (.announce resp) => agent = none ∧ resp.requestID = id
  | .cleanup a .waiting => agent = some a
  | .cleanup a (.ranging keys) => agent = some a ∧ id ∈ keys
  | .cleanup a (.sending name keys) => agent = some a ∧ (id = name ∨ id ∈ keys)
  | _ => False

def Proc.IsQueue : Proc → Prop
  | .queue _ => True
  | _ => False

def Proc.Cleans : Proc → Prop
  | .cleanup _ (.ranging _) | .cleanup _ (.sending _ _) => True
  | _ => False

def Proc.Adds : Proc → Prop
  | .router (.attaching party _ _) | .router (.found party _ _ _) => party.agent.isSome = true
  | _ => False

/-- **Somebody will act**, for every request in flight and for every mutex that is held; and nobody
hands a request over to an agent that is gone. -/
structure Settling (config : State) : Prop where
  worksFor : ∀ proc ∈ config.procs, ∀ agent, proc.worksFor = some agent →
    config.mem.connected (.receiver agent) = true
  handing : ∀ proc ∈ config.procs, ∀ agent, proc.handing = some agent →
    config.mem.done (.receiver agent) = false
  waiting : ∀ proc ∈ config.procs, ∀ agent, proc.sends = some agent →
    config.mem.done (.receiver agent) = false → Proc.cleanup agent .waiting ∈ config.procs
  settles : ∀ id inflight, config.mem.requests.inflight id = some inflight →
    ∃ proc ∈ config.procs, proc.Settles inflight.agent id
  agents : ∀ id inflight agent, config.mem.requests.inflight id = some inflight →
    inflight.agent = some agent → config.mem.connected (.receiver agent) = true
  queue : ∃ proc ∈ config.procs, proc.IsQueue
  cleans : config.mem.agentsMutex = true → ∃ proc ∈ config.procs, proc.Cleans
  adds : config.mem.router.receiversMutex = true → ∃ proc ∈ config.procs, proc.Adds
  dropped : ∀ cd id, (cd, id) ∈ config.mem.requests.dropped → config.mem.done (.sender cd) = true
  running : config.mem.crashed = false

section Rules

variable {md5 : GoString → GoString} {event : Event} {mem mem' : Mem} {acting left : List Proc}

theorem worksFor_router {done : Party → Bool} {label : Option RouteId} {r r' : Router}
    {acts leaves : List RouterProc} (act : RouterAct md5 done label r acts r' leaves) :
    ∀ proc ∈ leaves, ∀ agent, (Proc.router proc).worksFor = some agent →
      ∃ proc ∈ acts, (Proc.router proc).worksFor = some agent := by
  cases act with
  | lookup =>
    refine List.forall_mem_cons.mpr ⟨fun agent is => ⟨_, List.mem_cons_self, is⟩, ?_⟩
    exact Router.forall_mem_spawned (fun _ _ => nofun) _
  | attach =>
    refine List.forall_mem_cons.mpr ⟨fun agent is => ⟨_, List.mem_cons_self, is⟩, ?_⟩
    exact List.forall_mem_singleton.mpr fun agent is => ⟨_, List.mem_cons_self, is⟩
  | drop =>
    exact List.forall_mem_cons.mpr ⟨nofun, Router.forall_mem_spawned (fun _ _ => nofun) _⟩
  | lock => exact List.forall_mem_singleton.mpr fun agent is => ⟨_, List.mem_cons_self, is⟩
  | unlock | dec | cancelUnused | stillUsed | close => exact List.forall_mem_nil _
  | partyDone | channelClosed | decLast | updateLock | keep | cancel | update =>
    exact List.forall_mem_singleton.mpr nofun

theorem worksFor_rule (rule : Rule md5 event mem acting mem' left) :
    ∀ proc ∈ left, ∀ agent, proc.worksFor = some agent →
      (∃ proc ∈ acting, proc.worksFor = some agent) ∨ mem'.connected (.receiver agent) = true := by
  have kept : left.filterMap Proc.worksFor ⊆ acting.filterMap Proc.worksFor →
      ∀ proc ∈ left, ∀ agent, proc.worksFor = some agent →
        (∃ proc ∈ acting, proc.worksFor = some agent) ∨ mem'.connected (.receiver agent) = true :=
    fun subset proc member agent is => .inl (forall_named_of_subset subset proc member agent is)
  cases rule with
  | env act =>
    cases act with
    | connectAgent agent =>
      refine List.forall_mem_singleton.mpr fun other is => .inr ?_
      obtain rfl : agent = other := Option.some.inj is
      exact Function.update_self _ _ _
    | response => exact kept (List.Subset.refl _)
    | _ => exact kept (List.nil_subset _)
  | stream act =>
    cases act with
    | startAgent => exact kept (List.Subset.refl _)
    | serveAgent =>
      refine kept (List.cons_subset.mpr ⟨List.mem_cons_self, ?_⟩)
      exact List.Subset.refl _
    | _ => exact kept (List.nil_subset _)
  | router act =>
    refine List.forall_mem_map.mpr fun proc member agent is => .inl ?_
    obtain ⟨before, acted, same⟩ := worksFor_router act proc member agent is
    exact ⟨_, List.mem_map_of_mem acted, same⟩
  | call act =>
    cases act with
    | lookup =>
      refine List.forall_mem_cons.mpr ⟨nofun, List.forall_mem_map.mpr ?_⟩
      exact Router.forall_mem_spawned (fun _ _ => nofun) _
    | failedNonexistent => exact forall_named_of_none (forall_mem_back (fun _ => rfl) _)
    | _ => exact kept (List.nil_subset _)
  | exchange act =>
    cases act with
    | receive =>
      refine List.forall_mem_cons.mpr ⟨fun agent is => .inl ?_, forall_mem_back (fun _ _ => nofun) _⟩
      exact ⟨_, List.mem_cons_of_mem _ List.mem_cons_self, is⟩
    | announce =>
      exact forall_named_of_none (List.forall_mem_cons.mpr ⟨rfl, forall_mem_back (fun _ => rfl) _⟩)
    | handOver | forward => exact kept (List.Subset.refl _)
    | defunct => exact kept (List.nil_subset _)
  | token act | send act => cases act <;> exact kept (List.Subset.refl _)
  | cleanup act => cases act <;> exact kept (List.nil_subset _)
  | queue act =>
    cases act with
    | answer | answerFails =>
      exact forall_named_of_none
        (List.forall_mem_cons.mpr ⟨rfl, forall_mem_caching (fun _ _ => rfl) _ _ _⟩)
    | _ => exact kept (List.nil_subset _)

theorem handing_rule (rule : Rule md5 event mem acting mem' left) :
    ∀ proc ∈ left, ∀ agent, proc.handing = some agent →
      (∃ proc ∈ acting, proc.handing = some agent) ∨ ∃ req, event = .receive agent req := by
  cases rule with
  | env act | stream act | token act | cleanup act =>
    cases act <;> exact forall_named_of_none (eq_none_of_all rfl)
  | router act =>
    refine forall_named_of_none (List.forall_mem_map.mpr ?_)
    cases act with
    | lookup | drop =>
      exact List.forall_mem_cons.mpr ⟨rfl, Router.forall_mem_spawned (fun _ => rfl) _⟩
    | attach => exact List.forall_mem_cons.mpr ⟨rfl, List.forall_mem_singleton.mpr rfl⟩
    | unlock | dec | cancelUnused | stillUsed | close => exact List.forall_mem_nil _
    | _ => exact List.forall_mem_singleton.mpr rfl
  | call act =>
    cases act with
    | lookup =>
      exact forall_named_of_none (List.forall_mem_cons.mpr ⟨rfl,
        List.forall_mem_map.mpr (Router.forall_mem_spawned (fun _ => rfl) _)⟩)
    | failedNonexistent => exact forall_named_of_none (forall_mem_back (fun _ => rfl) _)
    | _ => exact forall_named_of_none (eq_none_of_all rfl)
  | exchange act =>
    cases act with
    | @receive _ call =>
      refine List.forall_mem_cons.mpr ⟨fun agent is => .inr ⟨call.request, ?_⟩,
        forall_mem_back (fun _ _ => nofun) _⟩
      rw [← Option.some.inj is]
    | handOver =>
      refine List.forall_mem_cons.mpr ⟨nofun, List.forall_mem_singleton.mpr fun agent is => .inl ?_⟩
      exact ⟨_, List.mem_cons_self, is⟩
    | announce =>
      exact forall_named_of_none (List.forall_mem_cons.mpr ⟨rfl, forall_mem_back (fun _ => rfl) _⟩)
    | _ => exact forall_named_of_none (eq_none_of_all rfl)
  | send act =>
    cases act with
    | load => exact List.forall_mem_singleton.mpr fun agent is => .inl ⟨_, List.mem_cons_self, is⟩
    | _ => exact forall_named_of_none (eq_none_of_all rfl)
  | queue act =>
    cases act with
    | answer | answerFails =>
      exact forall_named_of_none
        (List.forall_mem_cons.mpr ⟨rfl, forall_mem_caching (fun _ _ => rfl) _ _ _⟩)
    | _ => exact forall_named_of_none (eq_none_of_all rfl)

/-- A send goroutine is started together with the goroutine that waits for the end of the stream. -/
theorem sends_rule (rule : Rule md5 event mem acting mem' left) :
    ∀ proc ∈ left, ∀ agent, proc.sends = some agent →
      (∃ proc ∈ acting, proc.sends = some agent) ∨ Proc.cleanup agent .waiting ∈ left := by
  have kept : left.filterMap Proc.sends ⊆ acting.filterMap Proc.sends →
      ∀ proc ∈ left, ∀ agent, proc.sends = some agent →
        (∃ proc ∈ acting, proc.sends = some agent) ∨ Proc.cleanup agent .waiting ∈ left :=
    fun subset proc member agent is => .inl (forall_named_of_subset subset proc member agent is)
  cases rule with
  | env act | cleanup act => cases act <;> exact forall_named_of_none (eq_none_of_all rfl)
  | stream act =>
    cases act with
    | serveAgent =>
      refine List.forall_mem_cons.mpr ⟨fun agent is => .inr ?_,
        List.forall_mem_cons.mpr ⟨nofun, List.forall_mem_singleton.mpr nofun⟩⟩
      rw [Option.some.inj is]
      exact List.mem_cons_of_mem _ (List.mem_cons_of_mem _ List.mem_cons_self)
    | _ => exact forall_named_of_none (eq_none_of_all rfl)
  | token act | send act => cases act <;> exact kept (List.Subset.refl _)
  | router act => exact forall_named_of_none (List.forall_mem_map.mpr fun _ _ => rfl)
  | call act =>
    cases act with
    | lookup =>
      exact forall_named_of_none (List.forall_mem_cons.mpr ⟨rfl,
        List.forall_mem_map.mpr fun _ _ => rfl⟩)
    | failedNonexistent => exact forall_named_of_none (forall_mem_back (fun _ => rfl) _)
    | _ => exact forall_named_of_none (eq_none_of_all rfl)
  | exchange act =>
    cases act with
    | receive | announce =>
      exact forall_named_of_none (List.forall_mem_cons.mpr ⟨rfl, forall_mem_back (fun _ => rfl) _⟩)
    | _ => exact kept (List.Subset.refl _)
  | queue act =>
    cases act with
    | answer | answerFails =>
      exact forall_named_of_none
        (List.forall_mem_cons.mpr ⟨rfl, forall_mem_caching (fun _ _ => rfl) _ _ _⟩)
    | _ => exact forall_named_of_none (eq_none_of_all rfl)

theorem waiting_rule (rule : Rule md5 event mem acting mem' left) {agent : AgentId}
    (acts : Proc.cleanup agent .waiting ∈ acting) : mem.done (.receiver agent) = true := by
  cases rule with
  | cleanup act =>
    cases act with
    | start done =>
      cases List.mem_singleton.mp acts
      exact done
    | _ => exact absurd (List.mem_singleton.mp acts) nofun
  | router | token =>
    obtain ⟨_, _, is⟩ := List.mem_map.mp acts
    exact absurd is nofun
  | env act | stream act | call act | exchange act | send act | queue act => cases act <;> simp at acts

/-- **A request that is in flight** was so before, and whoever would have seen to it does, or has passed
it on; or its response is now to be announced; or a send goroutine has just recorded it. -/
theorem inflight_rule (rule : Rule md5 event mem acting mem' left)
    (traced : ∀ proc ∈ acting, proc.Traced mem.requests.received) {id : GoString}
    {inflight : InflightRequest} (stored : mem'.requests.inflight id = some inflight) :
    (mem.requests.inflight id = some inflight ∧ ∀ proc ∈ acting, proc.Settles inflight.agent id →
        ∃ proc ∈ left, proc.Settles inflight.agent id) ∨
      (inflight.agent = none ∧ ∃ proc ∈ left, proc.Settles none id) ∨
      ∃ agent req pending, acting = [.agent agent (.send (.loaded req pending))] ∧
        inflight.agent = some agent := by
  have alone : (∀ proc ∈ acting, ¬ proc.Settles inflight.agent id) →
      mem'.requests.inflight = mem.requests.inflight →
      mem.requests.inflight id = some inflight ∧ ∀ proc ∈ acting,
        proc.Settles inflight.agent id → ∃ proc ∈ left, proc.Settles inflight.agent id :=
    fun none same => ⟨same ▸ stored, fun proc member settles => absurd settles (none proc member)⟩
  cases rule with
  | env act =>
    cases act with
    | request | response | update =>
      exact .inl (alone (List.forall_mem_singleton.mpr not_false) rfl)
    | _ => exact .inl (alone (List.forall_mem_nil _) rfl)
  | stream act => cases act <;> exact .inl (alone (List.forall_mem_singleton.mpr not_false) rfl)
  | router | token => exact .inl (alone (List.forall_mem_map.mpr fun _ _ => not_false) rfl)
  | call act =>
    cases act with
    | @record _ call pending resp =>
      by_cases here : id = call.request.requestID
      · subst here
        obtain rfl : InflightRequest.mk pending none = inflight := by
          simpa [Requests.setInflight] using stored
        exact .inr (.inl ⟨rfl, _, List.mem_singleton_self _, rfl,
          (traced _ (List.mem_singleton_self _)).2⟩)
      · refine .inl ⟨?_, List.forall_mem_singleton.mpr False.elim⟩
        exact (Function.update_of_ne here _ _).symm.trans stored
    | _ => exact .inl (alone (List.forall_mem_singleton.mpr not_false) rfl)
  | exchange act =>
    cases act with
    | @announce _ call resp =>
      refine .inl ⟨stored, List.forall_mem_cons.mpr
        ⟨fun settles => ?_, List.forall_mem_singleton.mpr False.elim⟩⟩
      exact ⟨_, List.mem_cons_self, settles.2⟩
    | @defunct _ agent name keys =>
      refine .inl ⟨stored, List.forall_mem_cons.mpr
        ⟨fun settles => ?_, List.forall_mem_singleton.mpr False.elim⟩⟩
      rcases settles with ⟨same, rfl | member⟩
      · exact ⟨_, List.mem_cons_of_mem _ (List.mem_singleton_self _), rfl⟩
      · exact ⟨_, List.mem_cons_self, same, member⟩
    | _ =>
      exact .inl (alone (List.forall_mem_cons.mpr
        ⟨not_false, List.forall_mem_singleton.mpr not_false⟩) rfl)
  | send act =>
    cases act with
    | @record _ agent req pending =>
      by_cases here : id = req.requestID
      · subst here
        obtain rfl : InflightRequest.mk pending (some agent) = inflight := by
          simpa [Requests.setInflight] using stored
        exact .inr (.inr ⟨agent, req, pending, rfl, rfl⟩)
      · refine .inl ⟨?_, List.forall_mem_singleton.mpr False.elim⟩
        exact (Function.update_of_ne here _ _).symm.trans stored
    | _ => exact .inl (alone (List.forall_mem_singleton.mpr not_false) rfl)
  | cleanup act =>
    cases act with
    | @start _ agent keys _ _ _ covers =>
      refine .inl ⟨stored, List.forall_mem_singleton.mpr fun settles => ?_⟩
      refine ⟨_, List.mem_singleton_self _, settles, covers id ?_⟩
      rw [show mem.requests.inflight id = _ from stored, Option.isSome_some]
    | visit =>
      refine .inl ⟨stored, List.forall_mem_singleton.mpr fun settles => ?_⟩
      exact ⟨_, List.mem_singleton_self _, settles.1, List.mem_cons.mp settles.2⟩
    | @pass _ agent name keys other =>
      refine .inl ⟨stored, List.forall_mem_singleton.mpr fun settles => ?_⟩
      obtain ⟨same, member⟩ := settles
      rcases List.mem_cons.mp member with rfl | member
      · rw [show mem.requests.inflight id = _ from stored] at other
        exact absurd same other
      · exact ⟨_, List.mem_singleton_self _, same, member⟩
    | finish =>
      refine .inl ⟨stored, List.forall_mem_singleton.mpr fun settles => ?_⟩
      exact absurd settles.2 List.not_mem_nil
  | queue act =>
    cases act with
    | @unknown _ resp absent =>
      refine .inl (alone (List.forall_mem_singleton.mpr ?_) rfl)
      rintro rfl
      cases absent.symm.trans stored
    | @take _ resp =>
      have other : id ≠ resp.requestID := by
        rintro rfl
        simp [Requests.setInflight] at stored
      refine .inl ⟨?_, List.forall_mem_singleton.mpr fun settles => absurd settles.symm other⟩
      exact (Function.update_of_ne other _ _).symm.trans stored
    | _ => exact .inl (alone (List.forall_mem_singleton.mpr not_false) rfl)

theorem isQueue_rule (rule : Rule md5 event mem acting mem' left) :
    ∀ proc ∈ acting, proc.IsQueue → ∃ proc ∈ left, proc.IsQueue := by
  cases rule with
  | router | token => exact List.forall_mem_map.mpr fun _ _ => False.elim
  | env act =>
    cases act with
    | request | response | update => exact List.forall_mem_singleton.mpr False.elim
    | _ => exact List.forall_mem_nil _
  | stream act | call act | send act | cleanup act =>
    cases act <;> exact List.forall_mem_singleton.mpr False.elim
  | exchange act =>
    cases act with
    | receive | handOver =>
      exact List.forall_mem_cons.mpr ⟨False.elim, List.forall_mem_singleton.mpr False.elim⟩
    | announce =>
      refine List.forall_mem_cons.mpr ⟨False.elim, List.forall_mem_singleton.mpr fun _ => ?_⟩
      exact ⟨_, List.mem_cons_self, trivial⟩
    | forward | defunct =>
      refine List.forall_mem_cons.mpr ⟨False.elim, List.forall_mem_singleton.mpr fun _ => ?_⟩
      exact ⟨_, List.mem_cons_of_mem _ List.mem_cons_self, trivial⟩
  | queue act =>
    cases act with
    | push | pushFails => exact List.forall_mem_singleton.mpr False.elim
    | _ => exact List.forall_mem_singleton.mpr fun _ => ⟨_, List.mem_cons_self, trivial⟩

theorem cleans_rule (rule : Rule md5 event mem acting mem' left) (held : mem'.agentsMutex = true) :
    (mem.agentsMutex = true ∧ ∀ proc ∈ acting, proc.Cleans → ∃ proc ∈ left, proc.Cleans) ∨
      ∃ proc ∈ left, proc.Cleans := by
  cases rule with
  | router | token => exact .inl ⟨held, List.forall_mem_map.mpr fun _ _ => False.elim⟩
  | cleanup act =>
    cases act with
    | start => exact .inr ⟨_, List.mem_singleton_self _, trivial⟩
    | visit | pass =>
      exact .inl ⟨held, List.forall_mem_singleton.mpr fun _ => ⟨_, List.mem_cons_self, trivial⟩⟩
    | finish => exact absurd held nofun
  | env act =>
    cases act with
    | request | response | update => exact .inl ⟨held, List.forall_mem_singleton.mpr False.elim⟩
    | _ => exact .inl ⟨held, List.forall_mem_nil _⟩
  | stream act | call act | send act | queue act =>
    cases act <;> exact .inl ⟨held, List.forall_mem_singleton.mpr False.elim⟩
  | exchange act =>
    cases act with
    | defunct =>
      exact .inl ⟨held, List.forall_mem_cons.mpr ⟨fun _ => ⟨_, List.mem_cons_self, trivial⟩,
        List.forall_mem_singleton.mpr False.elim⟩⟩
    | _ =>
      exact .inl ⟨held, List.forall_mem_cons.mpr ⟨False.elim, List.forall_mem_singleton.mpr False.elim⟩⟩

theorem receiversMutex_setMutex (r : Router) (locked : Bool) (party : Party) :
    (r.setMutex locked party).receiversMutex =
      if party.agent.isSome then locked else r.receiversMutex := by
  cases party <;> rfl

theorem receiversMutex_ensure (r : Router) (hash : GoString) :
    (r.ensure hash).receiversMutex = r.receiversMutex := by
  unfold Router.ensure
  split <;> rfl

theorem receiversMutex_addRefCount (r : Router) (rt : RouteId) (change : Int) (party : Party) :
    (r.addRefCount rt change party).receiversMutex = r.receiversMutex := by
  cases party <;> rfl

theorem adds_router {done : Party → Bool} {label : Option RouteId} {r r' : Router}
    {acts leaves : List RouterProc} (act : RouterAct md5 done label r acts r' leaves)
    (held : r'.receiversMutex = true) :
    (r.receiversMutex = true ∧ ∀ proc ∈ acts, (Proc.router proc).Adds →
        ∃ proc ∈ leaves, (Proc.router proc).Adds) ∨ ∃ proc ∈ leaves, (Proc.router proc).Adds := by
  cases act with
  | @lock _ party =>
    rw [receiversMutex_setMutex] at held
    by_cases agent : party.agent.isSome = true
    · exact .inr ⟨_, List.mem_singleton_self _, agent⟩
    · rw [if_neg agent] at held
      exact .inl ⟨held, List.forall_mem_singleton.mpr False.elim⟩
  | lookup =>
    rw [receiversMutex_ensure] at held
    exact .inl ⟨held, List.forall_mem_singleton.mpr fun adds => ⟨_, List.mem_cons_self, adds⟩⟩
  | attach =>
    rw [receiversMutex_addRefCount] at held
    exact .inl ⟨held, List.forall_mem_singleton.mpr fun adds => ⟨_, List.mem_cons_self, adds⟩⟩
  | @unlock _ party =>
    rw [receiversMutex_setMutex] at held
    have sender : ¬ party.agent.isSome = true := by
      intro agent
      rw [if_pos agent] at held
      exact absurd held nofun
    rw [if_neg sender] at held
    exact .inl ⟨held, List.forall_mem_singleton.mpr fun adds => absurd adds sender⟩
  | decLast | dec =>
    rw [receiversMutex_addRefCount] at held
    exact .inl ⟨held, List.forall_mem_singleton.mpr False.elim⟩
  | drop =>
    rw [receiversMutex_ensure] at held
    exact .inl ⟨held, List.forall_mem_singleton.mpr False.elim⟩
  | _ => exact .inl ⟨held, List.forall_mem_singleton.mpr False.elim⟩

theorem adds_rule (rule : Rule md5 event mem acting mem' left)
    (held : mem'.router.receiversMutex = true) :
    (mem.router.receiversMutex = true ∧ ∀ proc ∈ acting, proc.Adds → ∃ proc ∈ left, proc.Adds) ∨
      ∃ proc ∈ left, proc.Adds := by
  cases rule with
  | router act =>
    rcases adds_router act held with ⟨before, passed⟩ | ⟨proc, member, adds⟩
    · refine .inl ⟨before, List.forall_mem_map.mpr fun proc member adds => ?_⟩
      obtain ⟨after, member, adds⟩ := passed proc member adds
      exact ⟨_, List.mem_map_of_mem member, adds⟩
    · exact .inr ⟨_, List.mem_map_of_mem member, adds⟩
  | token => exact .inl ⟨held, List.forall_mem_map.mpr fun _ _ => False.elim⟩
  | stream act =>
    cases act with
    | serveConsumerd => exact .inl ⟨held, List.forall_mem_singleton.mpr fun adds => absurd adds nofun⟩
    | startAgent => exact absurd held nofun
    | _ => exact .inl ⟨held, List.forall_mem_singleton.mpr False.elim⟩
  | call act =>
    cases act with
    | lookup =>
      rw [receiversMutex_ensure] at held
      exact .inl ⟨held, List.forall_mem_singleton.mpr False.elim⟩
    | _ => exact .inl ⟨held, List.forall_mem_singleton.mpr False.elim⟩
  | env act =>
    cases act with
    | request | response | update => exact .inl ⟨held, List.forall_mem_singleton.mpr False.elim⟩
    | _ => exact .inl ⟨held, List.forall_mem_nil _⟩
  | send act | cleanup act | queue act =>
    cases act <;> exact .inl ⟨held, List.forall_mem_singleton.mpr False.elim⟩
  | exchange act =>
    cases act <;> exact .inl ⟨held, List.forall_mem_cons.mpr
      ⟨False.elim, List.forall_mem_singleton.mpr False.elim⟩⟩

theorem dropped_rule (rule : Rule md5 event mem acting mem' left) {cd : ConsumerdId} {id : GoString}
    (dropped : (cd, id) ∈ mem'.requests.dropped) :
    (cd, id) ∈ mem.requests.dropped ∨ mem.done (.sender cd) = true := by
  cases rule with
  | queue act =>
    cases act with
    | answerFails _ done =>
      rcases List.mem_cons.mp dropped with same | before
      · cases same
        exact .inr done
      · exact .inl before
    | _ => exact .inl dropped
  | router | token => exact .inl dropped
  | env act | stream act | call act | exchange act | send act | cleanup act =>
    cases act <;> exact .inl dropped

theorem crashed_rule (rule : Rule md5 event mem acting mem' left) (running : mem.crashed = false)
    (calm : event ≠ .panic) : mem'.crashed = false := by
  cases rule with
  | call act =>
    cases act with
    | sendClosed => exact absurd rfl calm
    | _ => exact running
  | router | token => exact running
  | env act | stream act | exchange act | send act | cleanup act | queue act =>
    cases act <;> exact running

end Rules

section Steps

variable {md5 : GoString → GoString} {event : Event} {mem mem' : Mem} {acting left : List Proc}
  {rest : Multiset Proc}

theorem not_done_of_handing (rule : Rule md5 event mem acting mem' left)
    (clean : CleanHandOver ⟨mem, ↑acting + rest⟩ event) {proc : Proc} {agent : AgentId}
    (member : proc ∈ (↑acting + rest : Multiset Proc)) (handing : proc.handing = some agent)
    (running : mem.done (.receiver agent) = false) : mem'.done (.receiver agent) = false := by
  by_contra done
  rcases (parties_rule rule (.receiver agent)).2.1 (Bool.eq_true_of_not_eq_false done) with
    before | rfl
  · exact absurd (running.symm.trans before) nofun
  · exact clean proc member handing

theorem handing_fire (rule : Rule md5 event mem acting mem' left)
    (clean : CleanHandOver ⟨mem, ↑acting + rest⟩ event)
    (settling : Settling ⟨mem, ↑acting + rest⟩) :
    ∀ proc ∈ (↑left + rest : Multiset Proc), ∀ agent, proc.handing = some agent →
      mem'.done (.receiver agent) = false := by
  refine forall_mem_fire settling.handing (fun _ proc member agent is => ?_)
    fun proc member running agent is =>
      not_done_of_handing rule clean (mem_of_rest member) is (running agent is)
  rcases handing_rule rule proc member agent is with ⟨before, acted, is⟩ | ⟨req, rfl⟩
  · exact not_done_of_handing rule clean (mem_of_acting acted) is
      (settling.handing before (mem_of_acting acted) agent is)
  · by_contra done
    rcases (parties_rule rule (.receiver agent)).2.1 (Bool.eq_true_of_not_eq_false done) with
      before | other
    · exact absurd (clean.symm.trans before) nofun
    · exact absurd other nofun

theorem waiting_fire (rule : Rule md5 event mem acting mem' left)
    (settling : Settling ⟨mem, ↑acting + rest⟩) :
    ∀ proc ∈ (↑left + rest : Multiset Proc), ∀ agent, proc.sends = some agent →
      mem'.done (.receiver agent) = false →
      Proc.cleanup agent .waiting ∈ (↑left + rest : Multiset Proc) := by
  intro proc member agent is running
  have before : mem.done (.receiver agent) = false := by
    by_contra done
    have now := (parties_rule rule (.receiver agent)).2.2 (Bool.eq_true_of_not_eq_false done)
    exact absurd (running.symm.trans now) nofun
  -- whoever waited before waits still, since the stream is not done
  have still : Proc.cleanup agent .waiting ∈ (↑acting + rest : Multiset Proc) →
      Proc.cleanup agent .waiting ∈ (↑left + rest : Multiset Proc) := by
    intro waits
    rcases mem_fire.mp waits with acts | waits
    · exact absurd (before.symm.trans (waiting_rule rule acts)) nofun
    · exact mem_of_rest waits
  rcases mem_fire.mp member with new | old
  · rcases sends_rule rule proc new agent is with ⟨sender, acted, is⟩ | waits
    · exact still (settling.waiting sender (mem_of_acting acted) agent is before)
    · exact mem_of_acting waits
  · exact still (settling.waiting proc (mem_of_rest old) agent is before)

theorem settles_fire (rule : Rule md5 event mem acting mem' left)
    (traced : ∀ proc ∈ acting, proc.Traced mem.requests.received)
    (settling : Settling ⟨mem, ↑acting + rest⟩) {id : GoString} {inflight : InflightRequest}
    (stored : mem'.requests.inflight id = some inflight) :
    (∃ proc ∈ (↑left + rest : Multiset Proc), proc.Settles inflight.agent id) ∧
      ∀ agent, inflight.agent = some agent → mem'.connected (.receiver agent) = true := by
  rcases inflight_rule rule traced stored with ⟨before, passed⟩ | ⟨none, proc, member, settles⟩ |
    ⟨agent, req, pending, rfl, is⟩
  · exact ⟨exists_mem_fire (settling.settles id inflight before) passed fun _ _ settles => settles,
      fun agent is => (parties_rule rule _).1 (settling.agents id inflight agent before is)⟩
  · rw [none]
    exact ⟨⟨proc, mem_of_acting member, settles⟩, nofun⟩
  · -- the agent is there, so the end of its stream is still waited for
    have here := @mem_acting _ (Proc.agent agent (.send (.loaded req pending))) rest []
    have running := settling.handing _ here agent rfl
    have waits := settling.waiting _ here agent rfl running
    refine ⟨⟨.cleanup agent .waiting, Multiset.mem_add.mpr (.inr ?_), is⟩, fun other same => ?_⟩
    · simpa using waits
    · obtain rfl : agent = other := Option.some.inj (is.symm.trans same)
      exact (parties_rule rule _).1 (settling.worksFor _ here agent rfl)

end Steps

variable {md5 : GoString → GoString} {config next : State} {event : Event}

theorem settling_step (custody : Custody config) (settling : Settling config)
    (clean : CleanHandOver config event) (step : Step (Act md5) config event next) :
    Settling next := by
  cases step with
  | @fire _ mem mem' acting left rest fires =>
    have rule := fires.2
    have traced : ∀ proc ∈ acting, proc.Traced mem.requests.received := fun proc member =>
      custody.traced.procs proc (mem_of_acting member)
    refine ⟨?_, handing_fire rule clean settling, waiting_fire rule settling,
      fun id inflight stored => (settles_fire rule traced settling stored).1,
      fun id inflight agent stored => (settles_fire rule traced settling stored).2 agent,
      exists_mem_fire settling.queue (isQueue_rule rule) fun _ _ is => is, fun held => ?_,
      fun held => ?_, fun cd id dropped => ?_, ?_⟩
    · refine forall_mem_fire settling.worksFor (fun acted proc member agent is => ?_)
        fun proc _ connected agent is => (parties_rule rule _).1 (connected agent is)
      rcases worksFor_rule rule proc member agent is with ⟨before, member, is⟩ | connected
      · exact (parties_rule rule _).1 (acted before member agent is)
      · exact connected
    · rcases cleans_rule rule held with ⟨before, passed⟩ | ⟨proc, member, cleans⟩
      · exact exists_mem_fire (settling.cleans before) passed fun _ _ cleans => cleans
      · exact ⟨proc, mem_of_acting member, cleans⟩
    · rcases adds_rule rule held with ⟨before, passed⟩ | ⟨proc, member, adds⟩
      · exact exists_mem_fire (settling.adds before) passed fun _ _ adds => adds
      · exact ⟨proc, mem_of_acting member, adds⟩
    · refine (parties_rule rule _).2.2 ?_
      rcases dropped_rule rule dropped with before | done
      · exact settling.dropped cd id before
      · exact done
    · refine crashed_rule rule settling.running ?_
      rintro rfl
      exact clean

theorem settling_initial : Settling initial := by
  have only : ∀ proc ∈ initial.procs, proc = .queue .idle := by
    intro proc member
    simpa [initial, Config.ofList] using member
  refine ⟨fun proc member => ?_, fun proc member => ?_, fun proc member => ?_,
    by rintro _ _ ⟨⟩, by rintro _ _ _ ⟨⟩, ⟨.queue .idle, by simp [initial, Config.ofList], trivial⟩,
    by rintro ⟨⟩, by rintro ⟨⟩, by rintro _ _ ⟨⟩, rfl⟩ <;>
    rw [only proc member] <;> rintro _ ⟨⟩

end Kubecc.Scheduler
