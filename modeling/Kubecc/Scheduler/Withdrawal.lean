/-
**The routes a consumerd has left.**

`UpdateSenderToolchains` does not detach a consumerd from the routes of the toolchains that it drops: it
cancels them, and a route that is cancelled leaves the table. So the table holds no route to which a
consumerd is attached other than those of its toolchains.

* `Confined` — what the goroutines of a consumerd attach it to are routes of its toolchains, and an
  update looks at each of them before it is through.
* `attached_within` — when nothing moves, a route in the table to which a consumerd is attached is that
  of one of its toolchains, in every run.
-/

import Kubecc.Scheduler.Routes

namespace Kubecc.Scheduler.Routes

open Kubecc.Lib Kubecc.Go Kubecc.Types

def Has (md5 : GoString → GoString) (r : Router) (cd : ConsumerdId) (hash : GoString) : Prop :=
  ∃ tc ∈ r.toolchains cd, tcHash md5 tc = hash

def starts : RouterProc → Option ConsumerdId
  | .add (.sender cd) _ | .attaching (.sender cd) _ true | .found (.sender cd) _ _ true => some cd
  | _ => none

def updates : RouterProc → Option ConsumerdId
  | .update cd _ | .dropping cd _ _ | .cancelling cd _ _ _ | .attaching (.sender cd) _ false
  | .found (.sender cd) _ _ false => some cd
  | _ => none

def worksFor : RouterProc → Option ConsumerdId
  | .add (.sender cd) _ | .attaching (.sender cd) _ _ | .found (.sender cd) _ _ _
  | .attached (.sender cd) _ | .update cd _ | .dropping cd _ _ | .cancelling cd _ _ _ => some cd
  | _ => none

/-- What the goroutine attaches a consumerd to are routes of its toolchains. -/
def Within (md5 : GoString → GoString) (r : Router) : RouterProc → Prop
  | .add (.sender cd) tcs | .attaching (.sender cd) tcs _ =>
    ∀ tc ∈ tcs, Has md5 r cd (tcHash md5 tc)
  | .found (.sender cd) rt tcs _ =>
    (∀ tc ∈ tcs, Has md5 r cd (tcHash md5 tc)) ∧ ∀ hash, Stays r hash rt → Has md5 r cd hash
  | .attached (.sender cd) rt => ∀ hash, Stays r hash rt → Has md5 r cd hash
  | _ => True

/-- If the goroutine replaces the toolchains of the consumerd, then it is going to cancel the route of
this hash, or the new toolchains have it. -/
def Spares (md5 : GoString → GoString) (r : Router) (cd : ConsumerdId) (hash : GoString) :
    RouterProc → Prop
  | .dropping other old tcs => other = cd →
    (∃ tc ∈ old, tcHash md5 tc = hash) ∨ ∃ tc ∈ tcs, tcHash md5 tc = hash
  | .cancelling other rt old tcs => other = cd →
    r.routes hash = some rt ∨ (∃ tc ∈ old, tcHash md5 tc = hash) ∨ ∃ tc ∈ tcs, tcHash md5 tc = hash
  | _ => True

structure Confined (md5 : GoString → GoString) (config : State) : Prop where
  starting : ∀ cd, total (tally starts cd) config.procs + (config.mem.added (.sender cd)).toNat ≤
    (config.mem.connected (.sender cd)).toNat
  updating : ∀ proc ∈ config.procs, ∀ cd, updates proc = some cd →
    config.mem.added (.sender cd) = true
  working : ∀ proc ∈ config.procs, ∀ cd, worksFor proc = some cd →
    config.mem.connected (.sender cd) = true
  within : ∀ proc ∈ config.procs, Within md5 config.mem.router proc
  spares : ∀ cd rt, .attached (.sender cd) rt ∈ config.procs →
    ∀ hash, Stays config.mem.router hash rt →
      ∀ proc ∈ config.procs, Spares md5 config.mem.router cd hash proc

section Acts

variable {md5 : GoString → GoString} {done : Party → Bool} {label : Option RouteId} {r r' : Router}
  {acting left : List RouterProc} {rt : RouteId} {hash : GoString}

theorem starts_act (act : RouterAct md5 done label r acting r' left) (cd : ConsumerdId) :
    total (tally starts cd) ↑left ≤ total (tally starts cd) ↑acting := by
  have closer : ∀ hash, total (tally starts cd) ↑(r.spawned hash) = 0 := fun hash =>
    total_tally_eq_zero (Router.forall_mem_spawned (fun _ => rfl) hash) cd
  cases act with
  | @lock _ party | @unlock _ party | @partyDone _ party => cases party <;> simp [tally, starts]
  | @lookup _ party _ _ serve => cases party <;> cases serve <;> simp [tally, starts, closer]
  | @attach _ party _ _ serve => cases party <;> cases serve <;> simp [tally, starts]
  | _ => simp [tally, starts, closer]

theorem updates_act (act : RouterAct md5 done label r acting r' left) :
    ∀ proc ∈ left, ∀ cd, updates proc = some cd → ∃ proc ∈ acting, updates proc = some cd := by
  have closer : ∀ hash, ∀ proc ∈ r.spawned hash, ∀ cd, updates proc = some cd →
      ∃ proc ∈ acting, updates proc = some cd := fun hash =>
    forall_named_of_none (Router.forall_mem_spawned (fun _ => rfl) hash)
  cases act with
  | @lookup _ party _ _ serve =>
    refine List.forall_mem_cons.mpr ⟨fun cd is => ⟨_, List.mem_cons_self, ?_⟩, closer _⟩
    cases party <;> cases serve <;> exact is
  | @attach _ party _ _ serve =>
    refine List.forall_mem_cons.mpr ⟨fun cd is => ⟨_, List.mem_cons_self, ?_⟩,
      List.forall_mem_singleton.mpr fun cd is => absurd is nofun⟩
    cases party <;> cases serve <;> exact is
  | drop =>
    exact List.forall_mem_cons.mpr ⟨fun cd is => ⟨_, List.mem_cons_self, is⟩, closer _⟩
  | updateLock | keep | cancel | update =>
    exact List.forall_mem_singleton.mpr fun cd is => ⟨_, List.mem_cons_self, is⟩
  | @lock _ party => cases party <;> simp [updates]
  | _ => simp [updates]

theorem worksFor_act (act : RouterAct md5 done label r acting r' left) :
    ∀ proc ∈ left, ∀ cd, worksFor proc = some cd → ∃ proc ∈ acting, worksFor proc = some cd := by
  have closer : ∀ hash, ∀ proc ∈ r.spawned hash, ∀ cd, worksFor proc = some cd →
      ∃ proc ∈ acting, worksFor proc = some cd := fun hash =>
    forall_named_of_none (Router.forall_mem_spawned (fun _ => rfl) hash)
  cases act with
  | @lock _ party =>
    refine List.forall_mem_singleton.mpr fun cd is => ⟨_, List.mem_cons_self, ?_⟩
    cases party <;> exact is
  | @lookup _ party =>
    refine List.forall_mem_cons.mpr ⟨fun cd is => ⟨_, List.mem_cons_self, ?_⟩, closer _⟩
    cases party <;> exact is
  | @attach _ party =>
    refine List.forall_mem_cons.mpr ⟨fun cd is => ⟨_, List.mem_cons_self, ?_⟩,
      List.forall_mem_singleton.mpr fun cd is => ⟨_, List.mem_cons_self, ?_⟩⟩
    · cases party <;> exact is
    · cases party <;> exact is
  | drop =>
    exact List.forall_mem_cons.mpr ⟨fun cd is => ⟨_, List.mem_cons_self, is⟩, closer _⟩
  | updateLock | keep | cancel | update =>
    exact List.forall_mem_singleton.mpr fun cd is => ⟨_, List.mem_cons_self, is⟩
  | _ => simp [worksFor]

theorem Stays.of_ensure {hash other : GoString} (stays : Stays (r.ensure other) hash rt)
    (made : rt < r.nextRoute) : Stays r hash rt := by
  refine ⟨?_, (congrArg Route.cancelled (Router.ensure_route_of_lt other made)).symm.trans stays.live⟩
  have entry := stays.entry
  unfold Router.ensure at entry
  split at entry
  · exact entry
  · by_cases here : hash = other
    · subst here
      have new : r.nextRoute = rt := by simpa using entry
      exact absurd made (Nat.not_lt.mpr (Nat.le_of_eq new))
    · exact (Function.update_of_ne here _ _).symm.trans entry

theorem Stays.ne_of_cancel {rt rt' : RouteId} (stays : Stays (r.cancel rt') hash rt) : rt ≠ rt' := by
  rintro rfl
  exact absurd stays.live (by simp [Router.cancel, Router.setRoute])

theorem Stays.before (stays : Stays r' hash rt)
    (act : RouterAct md5 done label r acting r' left) (made : rt < r.nextRoute) : Stays r hash rt := by
  cases act with
  | lookup | drop => exact stays.of_ensure made
  | @lock _ party | @unlock _ party => cases party <;> exact ⟨stays.entry, stays.live⟩
  | updateLock | update => exact ⟨stays.entry, stays.live⟩
  | @attach _ party | @decLast _ party | @dec _ party =>
    refine stays.congr ?_ (addRefCount_cancelled _ _ _).symm
    cases party <;> rfl
  | cancelUnused | cancel =>
    refine ⟨stays.entry, ?_⟩
    simpa [Router.cancel, Router.setRoute, Function.update_of_ne stays.ne_of_cancel] using stays.live
  | @close _ rt' =>
    have elsewhere : hash ≠ (r.route rt').hash := by
      rintro rfl
      exact absurd stays.entry (by simp [Router.close])
    refine stays.congr (Function.update_of_ne elsewhere _ _).symm ?_
    by_cases here : rt = rt'
    · subst here
      simp [Router.close, Router.setRoute]
    · simp [Router.close, Router.setRoute, Function.update_of_ne here]
  | partyDone | channelClosed | stillUsed | keep => exact stays

theorem tcHash_of_equivalentTo {tc other : Toolchain} (equivalent : tc.equivalentTo other = true) :
    tcHash md5 tc = tcHash md5 other := by
  obtain ⟨kind, lang, arch, version⟩ := Toolchain.equivalentTo_iff.mp equivalent
  simp only [tcHash, Toolchain.hash, Toolchain.writes, kind, lang, arch, version]

theorem exists_of_stillExists {tcs : List Toolchain} {oldTc : Toolchain}
    (still : stillExists tcs oldTc = true) : ∃ tc ∈ tcs, tcHash md5 tc = tcHash md5 oldTc := by
  obtain ⟨tc, member, equivalent⟩ := List.any_eq_true.mp still
  exact ⟨tc, member, (tcHash_of_equivalentTo equivalent).symm⟩

theorem mem_of_mem_deferred {old tcs : List Toolchain} {tc : Toolchain}
    (member : tc ∈ deferred old tcs) : tc ∈ tcs := by
  unfold deferred at member
  split at member
  · exact absurd member List.not_mem_nil
  · next last =>
    rw [List.eq_of_mem_replicate member]
    exact List.mem_of_getLast? last

/-- The goroutine attaches to routes of the same toolchains after a step that neither changes them nor
makes a cancelled route stay. -/
theorem Within.mono {proc : RouterProc} (within : Within md5 r proc)
    (has : ∀ cd hash, worksFor proc = some cd → Has md5 r cd hash → Has md5 r' cd hash)
    (stay : ∀ rt hash, proc.knows = some rt → Stays r' hash rt → Stays r hash rt) :
    Within md5 r' proc := by
  cases proc with
  | add party tcs | attaching party tcs serve =>
    cases party with
    | sender cd => exact fun tc member => has cd _ rfl (within tc member)
    | receiver => trivial
  | found party rt tcs serve =>
    cases party with
    | sender cd =>
      exact ⟨fun tc member => has cd _ rfl (within.1 tc member),
        fun hash stays => has cd _ rfl (within.2 hash (stay rt hash rfl stays))⟩
    | receiver => trivial
  | attached party rt =>
    cases party with
    | sender cd => exact fun hash stays => has cd _ rfl (within hash (stay rt hash rfl stays))
    | receiver => trivial
  | _ => trivial

theorem within_act (act : RouterAct md5 done label r acting r' left) (kept : r.Kept)
    (made : ∀ proc ∈ acting, ∀ rt, proc.knows = some rt → rt < r.nextRoute)
    (same : r'.toolchains = r.toolchains) (within : ∀ proc ∈ acting, Within md5 r proc)
    (notLast : ∀ cd tcs, acting ≠ [.dropping cd [] tcs]) : ∀ proc ∈ left, Within md5 r' proc := by
  have has : ∀ cd hash, Has md5 r cd hash → Has md5 r' cd hash := by
    intro cd hash
    unfold Has
    rw [same]
    exact id
  have closer : ∀ hash, ∀ proc ∈ r.spawned hash, Within md5 r' proc := fun hash =>
    Router.forall_mem_spawned (fun _ => trivial) hash
  have keptAfter := kept_act act kept
  cases act with
  | @lock _ party =>
    have before := within _ List.mem_cons_self
    cases party with
    | sender cd => exact List.forall_mem_singleton.mpr fun tc member => has cd _ (before tc member)
    | receiver => exact List.forall_mem_singleton.mpr trivial
  | @lookup _ party tc tcs serve =>
    have before := within _ List.mem_cons_self
    refine List.forall_mem_cons.mpr ⟨?_, closer _⟩
    cases party with
    | sender cd =>
      refine ⟨fun tc' member => has cd _ (before tc' (List.mem_cons_of_mem _ member)), ?_⟩
      intro hash stays
      have own : tcHash md5 tc = hash := by
        rw [← keptAfter.own hash _ stays.entry]
        exact (keptAfter.own _ _ (Router.ensure_routes_self _)).symm
      rw [← own]
      exact has cd _ (before tc List.mem_cons_self)
    | receiver => trivial
  | @attach _ party rt tcs serve =>
    have before := within _ List.mem_cons_self
    have stay : ∀ hash, Stays (r.addRefCount rt 1 party) hash rt → Stays r hash rt := fun hash stays =>
      stays.before (@RouterAct.attach md5 done r party rt tcs serve) (made _ List.mem_cons_self rt rfl)
    cases party with
    | sender cd =>
      exact List.forall_mem_cons.mpr ⟨fun tc member => has cd _ (before.1 tc member),
        List.forall_mem_singleton.mpr fun hash stays => has cd _ (before.2 hash (stay hash stays))⟩
    | receiver => exact List.forall_mem_cons.mpr ⟨trivial, List.forall_mem_singleton.mpr trivial⟩
  | drop => exact List.forall_mem_cons.mpr ⟨trivial, closer _⟩
  | update => exact absurd rfl (notLast _ _)
  | unlock | dec | cancelUnused | stillUsed | close => exact List.forall_mem_nil _
  | _ => exact List.forall_mem_singleton.mpr trivial

theorem spares_act (act : RouterAct md5 done label r acting r' left) {cd : ConsumerdId}
    (stays : Stays r hash rt) (after : Stays r' hash rt)
    (has : Has md5 r cd hash) (spares : ∀ proc ∈ acting, Spares md5 r cd hash proc) :
    ∀ proc ∈ left, Spares md5 r' cd hash proc := by
  have closer : ∀ hash', ∀ proc ∈ r.spawned hash', Spares md5 r' cd hash proc := fun hash' =>
    Router.forall_mem_spawned (fun _ => trivial) hash'
  cases act with
  | updateLock =>
    refine List.forall_mem_singleton.mpr fun whose => .inl ?_
    subst whose
    exact has
  | @keep _ other oldTc old tcs still =>
    refine List.forall_mem_singleton.mpr fun whose => ?_
    rcases spares _ List.mem_cons_self whose with ⟨tc, member, is⟩ | new
    · rcases List.mem_cons.mp member with rfl | later
      · obtain ⟨newTc, there, same⟩ := @exists_of_stillExists md5 tcs _ still
        exact .inr ⟨newTc, there, same.trans is⟩
      · exact .inl ⟨tc, later, is⟩
    · exact .inr new
  | @drop _ other oldTc old tcs gone =>
    refine List.forall_mem_cons.mpr ⟨fun whose => ?_, closer _⟩
    rcases spares _ List.mem_cons_self whose with ⟨tc, member, is⟩ | new
    · rcases List.mem_cons.mp member with rfl | later
      · rw [← is]
        exact .inl (Router.ensure_routes_self _)
      · exact .inr (.inl ⟨tc, later, is⟩)
    · exact .inr (.inr new)
  | @cancel _ other rt' old tcs =>
    refine List.forall_mem_singleton.mpr fun whose => ?_
    rcases spares _ List.mem_cons_self whose with entry | rest
    · exact absurd (Option.some.inj (stays.entry.symm.trans entry)) after.ne_of_cancel
    · exact rest
  | lookup => exact List.forall_mem_cons.mpr ⟨trivial, closer _⟩
  | attach => exact List.forall_mem_cons.mpr ⟨trivial, List.forall_mem_singleton.mpr trivial⟩
  | unlock | dec | cancelUnused | stillUsed | close => exact List.forall_mem_nil _
  | _ => exact List.forall_mem_singleton.mpr trivial

end Acts

section Runs

variable {md5 : GoString → GoString} {config next : State} {event : Event}
  {mem mem' : Shared} {acting left : List RouterProc} {rest : Multiset RouterProc} {cd : ConsumerdId}
  {hash : GoString} {proc : RouterProc} {rt : RouteId}

theorem Sound.alone (sound : Sound ⟨mem, ↑acting + rest⟩) {proc other : RouterProc} {side : Side}
    (member : proc ∈ acting) (is : locks proc = some side) (there : other ∈ rest) :
    locks other ≠ some side := by
  intro same
  have first := one_le_total_tally (Multiset.mem_coe.mpr member) is
  have second := one_le_total_tally there same
  have both : (mutex mem.router side).toNat = _ := sound.lockers side
  rw [total_add] at both
  have most := Bool.toNat_le (mutex mem.router side)
  omega

theorem Spares.mono {r r' : Router} (spares : Spares md5 r cd hash proc) (stays : Stays r hash rt)
    (after : Stays r' hash rt) : Spares md5 r' cd hash proc := by
  cases proc with
  | cancelling other rt' old tcs =>
    intro whose
    rcases spares whose with entry | others
    · exact .inl (after.entry.trans (stays.entry.symm.trans entry))
    · exact .inr others
  | dropping other old tcs => exact spares
  | _ => trivial

theorem Confined.connected (confined : Confined md5 config)
    (added : config.mem.added (.sender cd) = true) : config.mem.connected (.sender cd) = true := by
  have bound := confined.starting cd
  rw [added, Bool.toNat_true] at bound
  cases connected : config.mem.connected (.sender cd) with
  | true => rfl
  | false => simp [connected] at bound

theorem Confined.starts_ne (confined : Confined md5 config) (added : config.mem.added (.sender cd) = true)
    (member : proc ∈ config.procs) : starts proc ≠ some cd := by
  intro is
  have counted := one_le_total_tally member is
  have bound := confined.starting cd
  have most := Bool.toNat_le (config.mem.connected (.sender cd))
  rw [added, Bool.toNat_true] at bound
  omega

theorem Confined.fire (confined : Confined md5 ⟨mem, ↑acting + rest⟩)
    (sound : Sound ⟨mem, ↑acting + rest⟩)
    (starting : ∀ cd, total (tally starts cd) ↑left + (mem'.added (.sender cd)).toNat +
      (mem.connected (.sender cd)).toNat ≤ total (tally starts cd) ↑acting +
      (mem.added (.sender cd)).toNat + (mem'.connected (.sender cd)).toNat)
    (addedStays : ∀ cd, mem.added (.sender cd) = true → mem'.added (.sender cd) = true)
    (connectedStays : ∀ cd, mem.connected (.sender cd) = true → mem'.connected (.sender cd) = true)
    (updating : ∀ proc ∈ left, ∀ cd, updates proc = some cd → mem'.added (.sender cd) = true)
    (working : ∀ proc ∈ left, ∀ cd, worksFor proc = some cd → mem'.connected (.sender cd) = true)
    (others : ∀ proc ∈ rest, Within md5 mem.router proc → Within md5 mem'.router proc)
    (stay : ∀ rt hash, rt < mem.router.nextRoute → Stays mem'.router hash rt →
      Stays mem.router hash rt)
    (within : ∀ proc ∈ left, Within md5 mem'.router proc)
    (spares : ∀ cd rt, .attached (.sender cd) rt ∈ (↑left + rest : Multiset RouterProc) →
      ∀ hash, Stays mem'.router hash rt → ∀ proc ∈ left, Spares md5 mem'.router cd hash proc)
    (new : ∀ cd rt, .attached (.sender cd) rt ∈ left → ∀ hash, Stays mem'.router hash rt →
      ∀ proc ∈ rest, Spares md5 mem'.router cd hash proc) :
    Confined md5 ⟨mem', ↑left + rest⟩ := by
  refine ⟨fun cd => ?_, ?_, ?_, ?_, ?_⟩
  · have before := confined.starting cd
    have change := starting cd
    rw [total_add] at before ⊢
    show _ + (mem'.added (.sender cd)).toNat ≤ (mem'.connected (.sender cd)).toNat
    have before : _ + (mem.added (.sender cd)).toNat ≤ (mem.connected (.sender cd)).toNat := before
    omega
  · exact forall_mem_fire confined.updating (fun _ => updating) fun proc _ old cd is =>
      addedStays cd (old cd is)
  · exact forall_mem_fire confined.working (fun _ => working) fun proc _ old cd is =>
      connectedStays cd (old cd is)
  · exact forall_mem_fire confined.within (fun _ => within) others
  · intro cd rt attached hash stays proc member
    rcases mem_fire.mp member with leaves | remains
    · exact spares cd rt attached hash stays proc leaves
    · rcases mem_fire.mp attached with leaves | before
      · exact new cd rt leaves hash stays proc remains
      · have there : .attached (.sender cd) rt ∈ (↑acting + rest : Multiset RouterProc) :=
          mem_of_rest before
        have stayed := stay rt hash (sound.made _ there rt rfl) stays
        have old := confined.spares cd rt there hash stayed proc (mem_of_rest remains)
        exact old.mono stayed stays

theorem Sound.within_rest (sound : Sound ⟨mem, ↑acting + rest⟩)
    (has : ∀ proc ∈ rest, ∀ cd, worksFor proc = some cd → ∀ hash,
      Has md5 mem.router cd hash → Has md5 mem'.router cd hash)
    (stay : ∀ rt hash, rt < mem.router.nextRoute → Stays mem'.router hash rt →
      Stays mem.router hash rt) :
    ∀ proc ∈ rest, Within md5 mem.router proc → Within md5 mem'.router proc := by
  intro proc member within
  refine within.mono (fun cd hash is => has proc member cd is hash) fun rt hash is => ?_
  exact stay rt hash (sound.made proc (mem_of_rest member) rt is)

theorem Confined.join (confined : Confined md5 ⟨mem, ↑([] : List RouterProc) + rest⟩)
    (sound : Sound ⟨mem, ↑([] : List RouterProc) + rest⟩) (router : mem'.router = mem.router)
    (added : mem'.added = mem.added)
    (connected : ∀ cd, mem'.connected (.sender cd) = mem.connected (.sender cd))
    (starting : ∀ proc ∈ left, starts proc = none)
    (updating : ∀ proc ∈ left, ∀ cd, updates proc = some cd → mem.added (.sender cd) = true)
    (working : ∀ proc ∈ left, ∀ cd, worksFor proc = some cd → mem.connected (.sender cd) = true)
    (within : ∀ proc ∈ left, Within md5 mem.router proc)
    (spares : ∀ proc ∈ left, ∀ cd hash, Spares md5 mem.router cd hash proc)
    (new : ∀ proc ∈ left, uses proc = none) : Confined md5 ⟨mem', ↑left + rest⟩ := by
  have stay : ∀ rt hash, rt < mem.router.nextRoute → Stays mem'.router hash rt →
      Stays mem.router hash rt := fun rt hash _ stays => router ▸ stays
  refine confined.fire sound (fun cd => ?_) (fun cd is => by rw [added]; exact is)
    (fun cd is => (connected cd).trans is) (fun proc member cd is => ?_)
    (fun proc member cd is => ?_) (sound.within_rest (fun proc _ cd _ hash has => router ▸ has) stay)
    stay (fun proc member => router ▸ within proc member) (fun cd rt _ hash _ proc member => ?_)
    fun cd rt member hash stays => ?_
  · rw [total_tally_eq_zero starting, added, connected, total_coe_nil]
  · rw [added]
    exact updating proc member cd is
  · rw [connected]
    exact working proc member cd is
  · exact router ▸ spares proc member cd hash
  · exact absurd (new _ member) nofun

theorem attached_act {done : Party → Bool} {label : Option RouteId} {r r' : Router}
    (act : RouterAct md5 done label r acting r' left)
    (attached : .attached (.sender cd) rt ∈ left) : ∃ tcs serve,
      acting = [.found (.sender cd) rt tcs serve] ∧
      left = [.attaching (.sender cd) tcs serve, .attached (.sender cd) rt] := by
  cases act with
  | @attach _ party rt' tcs serve =>
    obtain ⟨rfl, rfl⟩ : Party.sender cd = party ∧ rt = rt' := by simpa using attached
    exact ⟨tcs, serve, rfl, rfl⟩
  | lookup | drop =>
    rcases List.mem_cons.mp attached with is | spawned
    · exact absurd is nofun
    · exact absurd rfl (Router.forall_mem_spawned
        (P := fun proc => proc ≠ .attached (.sender cd) rt) nofun _ _ spawned)
  | _ => simp at attached

theorem Sound.spares_rest (sound : Sound ⟨mem, ↑acting + rest⟩)
    (member : proc ∈ acting) (is : locks proc = some .senders) (r : Router) (cd : ConsumerdId)
    (hash : GoString) : ∀ other ∈ rest, Spares md5 r cd hash other := by
  intro other there
  have free := sound.alone member is there
  cases other with
  | dropping | cancelling => exact absurd rfl free
  | _ => trivial

section Router

variable {label : Option RouteId} {router : Router}

theorem Confined.fire_act (confined : Confined md5 ⟨mem, ↑acting + rest⟩)
    (sound : Sound ⟨mem, ↑acting + rest⟩)
    (act : RouterAct md5 mem.done label mem.router acting router left)
    (others : ∀ proc ∈ rest, Within md5 mem.router proc → Within md5 router proc)
    (within : ∀ proc ∈ left, Within md5 router proc) :
    Confined md5 ⟨{ mem with router := router }, ↑left + rest⟩ := by
  have here : ∀ proc ∈ acting, proc ∈ (↑acting + rest : Multiset RouterProc) := fun proc member =>
    mem_of_acting member
  have stay : ∀ rt hash, rt < mem.router.nextRoute → Stays router hash rt →
      Stays mem.router hash rt := fun rt hash made stays => stays.before act made
  refine confined.fire sound (fun cd => ?_) (fun _ is => is) (fun _ is => is)
    (fun proc member cd is => ?_) (fun proc member cd is => ?_) others stay within
    (fun cd rt attached hash stays proc member => ?_) fun cd rt attached hash stays => ?_
  · have fewer := starts_act act cd
    show _ + (mem.added (.sender cd)).toNat + (mem.connected (.sender cd)).toNat ≤
      _ + (mem.added (.sender cd)).toNat + (mem.connected (.sender cd)).toNat
    omega
  · obtain ⟨before, there, is⟩ := updates_act act proc member cd is
    exact confined.updating before (here before there) cd is
  · obtain ⟨before, there, is⟩ := worksFor_act act proc member cd is
    exact confined.working before (here before there) cd is
  · rcases mem_fire.mp attached with leaves | remains
    · obtain ⟨tcs, serve, -, rfl⟩ := attached_act act leaves
      exact List.forall_mem_cons.mpr ⟨trivial, List.forall_mem_singleton.mpr trivial⟩ proc member
    · have there : .attached (.sender cd) rt ∈ (↑acting + rest : Multiset RouterProc) :=
        mem_of_rest remains
      have stayed := stay rt hash (sound.made _ there rt rfl) stays
      exact spares_act act stayed stays (confined.within _ there hash stayed)
        (fun proc member => confined.spares cd rt there hash stayed proc (here proc member)) proc member
  · obtain ⟨tcs, serve, rfl, -⟩ := attached_act act attached
    exact sound.spares_rest List.mem_cons_self rfl router cd hash

theorem confined_act (confined : Confined md5 ⟨mem, ↑acting + rest⟩)
    (sound : Sound ⟨mem, ↑acting + rest⟩)
    (act : RouterAct md5 mem.done label mem.router acting router left)
    (same : router.toolchains = mem.router.toolchains)
    (notLast : ∀ cd tcs, acting ≠ [.dropping cd [] tcs]) :
    Confined md5 ⟨{ mem with router := router }, ↑left + rest⟩ := by
  have here : ∀ proc ∈ acting, proc ∈ (↑acting + rest : Multiset RouterProc) := fun proc member =>
    mem_of_acting member
  have has : ∀ cd hash, Has md5 mem.router cd hash → Has md5 router cd hash := by
    intro cd hash
    unfold Has
    rw [same]
    exact id
  refine confined.fire_act sound act ?_ ?_
  · exact @Sound.within_rest md5 mem { mem with router := router } acting rest sound
      (fun _ _ cd _ hash => has cd hash) fun rt hash made stays => stays.before act made
  · exact within_act act sound.kept (fun proc member => sound.made proc (here proc member)) same
      (fun proc member => confined.within proc (here proc member)) notLast

/-- **The last step of an update.** The routes that the consumerd still has are those of the new
toolchains. -/
theorem confined_update {cd : ConsumerdId} {tcs : List Toolchain}
    (confined : Confined md5 ⟨mem, ↑[RouterProc.dropping cd [] tcs] + rest⟩)
    (sound : Sound ⟨mem, ↑[RouterProc.dropping cd [] tcs] + rest⟩)
    (act : RouterAct md5 mem.done label mem.router [.dropping cd [] tcs] router
      [.attaching (.sender cd) (deferred (mem.router.toolchains cd) tcs) false])
    (changed : router.toolchains = Function.update mem.router.toolchains cd tcs) :
    Confined md5 ⟨{ mem with router := router },
      ↑[RouterProc.attaching (.sender cd) (deferred (mem.router.toolchains cd) tcs) false] +
        rest⟩ := by
  have has : ∀ tc ∈ tcs, Has md5 router cd (tcHash md5 tc) := fun tc member =>
    ⟨tc, by rw [changed, Function.update_self]; exact member, rfl⟩
  refine confined.fire_act sound act (fun proc member within => ?_) ?_
  · have free : locks proc ≠ some .senders := sound.alone List.mem_cons_self rfl member
    have there : proc ∈ (↑[RouterProc.dropping cd [] tcs] + rest : Multiset RouterProc) :=
      mem_of_rest member
    by_cases mine : worksFor proc = some cd
    · cases proc with
      | attached party rt =>
        cases party with
        | sender other =>
          obtain rfl : other = cd := Option.some.inj mine
          intro hash stays
          have stayed := stays.before act (sound.made _ there rt rfl)
          rcases confined.spares other rt there hash stayed _ mem_acting rfl with old | ⟨tc, new, is⟩
          · obtain ⟨tc, absent, -⟩ := old
            exact absurd absent List.not_mem_nil
          · rw [← is]
            exact has tc new
        | receiver => trivial
      | add party list =>
        cases party with
        | sender other =>
          obtain rfl : other = cd := Option.some.inj mine
          -- the consumerd has been added, so nobody is about to add it
          exact absurd rfl (confined.starts_ne (confined.updating _ mem_acting other rfl) there)
        | receiver => trivial
      | attaching party | found party =>
        cases party with
        | sender => exact absurd rfl free
        | receiver => trivial
      | _ => trivial
    · refine within.mono (fun other hash is has => ?_) fun rt hash is stays => ?_
      · have differs : other ≠ cd := fun same => mine (same ▸ is)
        unfold Has
        rwa [changed, Function.update_of_ne differs]
      · exact stays.before act (sound.made _ there rt is)
  · exact List.forall_mem_singleton.mpr fun tc member => has tc (mem_of_mem_deferred member)

end Router

theorem confined_step (confined : Confined md5 config) (sound : Sound config)
    (step : Step (Rule md5) config event next) : Confined md5 next := by
  cases step with
  | @fire _ mem mem' acting left rest rule =>
    cases rule with
    | connectSender cd tcs isNew =>
      have mine : ∀ proc ∈ rest, worksFor proc ≠ some cd := fun proc member is =>
        absurd (isNew.symm.trans (confined.working proc (mem_of_rest member) cd is))
          Bool.false_ne_true
      have stay : ∀ rt hash, rt < mem.router.nextRoute →
          Stays { mem.router with
            toolchains := Function.update mem.router.toolchains cd tcs } hash rt →
          Stays mem.router hash rt := fun rt hash _ stays => ⟨stays.entry, stays.live⟩
      refine confined.fire sound (fun other => ?_) (fun _ is => is) (fun other is => ?_)
        (List.forall_mem_singleton.mpr (by rintro _ ⟨⟩))
        (List.forall_mem_singleton.mpr fun other is => ?_)
        (sound.within_rest (fun proc member other is hash has => ?_) stay) stay
        (List.forall_mem_singleton.mpr fun tc member => ?_)
        (fun _ _ _ _ _ => List.forall_mem_singleton.mpr trivial)
        (fun _ _ member => absurd member (by simp))
      · by_cases here : other = cd
        · subst here
          simp [tally, starts, isNew]
          omega
        · simp [tally, starts, Function.update_of_ne, here, Ne.symm here]
      · by_cases here : other = cd
        · subst here
          exact Function.update_self _ _ _
        · exact (Function.update_of_ne (by simpa using here) _ _).trans is
      · rw [← Option.some.inj is]
        exact Function.update_self _ _ _
      · have differs : other ≠ cd := fun same => mine proc member (same ▸ is)
        obtain ⟨tc, there, same⟩ := has
        have still : tc ∈ Function.update mem.router.toolchains cd tcs other := by
          rwa [Function.update_of_ne differs]
        exact ⟨tc, still, same⟩
      · have there : tc ∈ Function.update mem.router.toolchains cd tcs cd := by
          rwa [Function.update_self]
        exact ⟨tc, there, rfl⟩
    | connectReceiver agent tcs =>
      exact confined.join sound rfl rfl (fun cd => by simp) (by simp [starts])
        (by simp [updates]) (by simp [worksFor]) (by simp [Within]) (by simp [Spares])
        (by simp [uses])
    | disconnect party =>
      exact confined.join sound rfl rfl (fun _ => rfl) (List.forall_mem_nil _) (List.forall_mem_nil _)
        (List.forall_mem_nil _) (List.forall_mem_nil _) (List.forall_mem_nil _) (List.forall_mem_nil _)
    | update cd tcs added =>
      refine confined.join sound rfl rfl (fun _ => rfl) (List.forall_mem_singleton.mpr rfl)
        (List.forall_mem_singleton.mpr fun other is => ?_)
        (List.forall_mem_singleton.mpr fun other is => ?_) (List.forall_mem_singleton.mpr trivial)
        (List.forall_mem_singleton.mpr fun _ _ => trivial) (List.forall_mem_singleton.mpr rfl)
      · rw [← Option.some.inj is]
        exact added
      · rw [← Option.some.inj is]
        exact confined.connected added
    | route tc =>
      have stay : ∀ rt hash, rt < mem.router.nextRoute →
          Stays (mem.router.ensure (tcHash md5 tc)) hash rt → Stays mem.router hash rt :=
        fun rt hash made stays => stays.of_ensure made
      have has : ∀ cd hash, Has md5 mem.router cd hash →
          Has md5 (mem.router.ensure (tcHash md5 tc)) cd hash := by
        intro cd hash
        unfold Has
        rw [Router.ensure_toolchains]
        exact id
      refine confined.fire sound (fun cd => ?_) (fun _ is => is) (fun _ is => is)
        (forall_named_of_none (Router.forall_mem_spawned (fun _ => rfl) _))
        (forall_named_of_none (Router.forall_mem_spawned (fun _ => rfl) _))
        (sound.within_rest (fun _ _ cd _ hash => has cd hash) stay) stay
        (Router.forall_mem_spawned (fun _ => trivial) _)
        (fun _ _ _ _ _ => Router.forall_mem_spawned (fun _ => trivial) _) fun cd rt member => ?_
      · rw [total_tally_eq_zero (Router.forall_mem_spawned (fun _ => rfl) _)]
        rfl
      · exact absurd rfl (Router.forall_mem_spawned
          (P := fun proc => proc ≠ .attached (.sender cd) rt) (by rintro _ ⟨⟩) _ _ member)
    | @added _ party =>
      have stay : ∀ rt hash, rt < mem.router.nextRoute →
          Stays (mem.router.setMutex false party) hash rt → Stays mem.router hash rt := by
        intro rt hash _ stays
        cases party <;> exact ⟨stays.entry, stays.live⟩
      have has : ∀ cd hash, Has md5 mem.router cd hash →
          Has md5 (mem.router.setMutex false party) cd hash := by
        intro cd hash has
        cases party <;> exact has
      refine confined.fire sound (fun cd => ?_) (fun cd is => ?_) (fun _ is => is)
        (List.forall_mem_nil _) (List.forall_mem_nil _)
        (sound.within_rest (fun _ _ cd _ hash => has cd hash) stay) stay (List.forall_mem_nil _)
        (fun _ _ _ _ _ => List.forall_mem_nil _) fun _ _ member => absurd member List.not_mem_nil
      · cases party with
        | sender other =>
          by_cases here : cd = other
          · subst here
            simp [tally, starts]
          · simp [tally, starts, here, Ne.symm here]
        | receiver => simp [tally, starts]
      · show Function.update mem.added party true (.sender cd) = true
        rw [Function.update_apply]
        split
        · rfl
        · exact is
    | router act =>
      rcases toolchains_act act with ⟨same, notLast⟩ | ⟨cd, tcs, rfl, changed, rfl⟩
      · exact confined_act confined sound act same notLast
      · exact confined_update confined sound act changed

theorem confined_initial : Confined md5 initial := by
  have nobody : ∀ proc : RouterProc, proc ∉ initial.procs := fun proc => Multiset.notMem_zero proc
  exact ⟨fun cd => le_rfl, fun proc member => absurd member (nobody proc),
    fun proc member => absurd member (nobody proc), fun proc member => absurd member (nobody proc),
    fun cd rt attached => absurd attached (nobody _)⟩

theorem sound_confined {allowed : State → Event → Prop}
    (reach : Reach (Rule md5) allowed initial config) : Sound config ∧ Confined md5 config := by
  refine reach.invariant (fun config => Sound config ∧ Confined md5 config)
    ⟨sound_initial, confined_initial⟩ ?_
  rintro config event next ⟨sound, confined⟩ _ step
  exact ⟨sound_step sound step, confined_step confined sound step⟩

theorem Quiet.stays (quiet : Quiet md5 config) (sound : Sound config)
    (entry : config.mem.router.routes hash = some rt) : Stays config.mem.router hash rt := by
  refine ⟨entry, ?_⟩
  have isListed : listed config.mem.router rt = 1 := by
    rw [listed_eq_one, sound.kept.own hash rt entry]
    exact entry
  have positive : 0 < total (tally closes rt) config.procs := by
    rw [← sound.closers, isListed]
    exact Nat.one_pos
  obtain ⟨proc, member, is⟩ := exists_of_total_tally_pos positive
  cases proc with
  | closer other =>
    obtain rfl : other = rt := Option.some.inj is
    cases cancelled : (config.mem.router.route other).cancelled with
    | false => rfl
    | true => exact absurd member (quiet.notMem (.router (.close cancelled)))
  | _ => exact absurd is nofun

theorem attached_within {allowed : State → Event → Prop}
    (reach : Reach (Rule md5) allowed initial config) (quiet : Quiet md5 config)
    (attached : .attached (.sender cd) rt ∈ config.procs)
    (entry : config.mem.router.routes hash = some rt) :
    ∃ tc ∈ config.mem.router.toolchains cd, tcHash md5 tc = hash := by
  obtain ⟨sound, confined⟩ := sound_confined reach
  exact confined.within _ attached hash (quiet.stays sound entry)

end Runs

end Kubecc.Scheduler.Routes
