/-
**What an update attaches.**

`UpdateSenderToolchains` cancels the routes of the toolchains that a consumerd drops, and attaches the
consumerd to the routes of its new ones in deferred calls. The calls read the loop variable when the loop
is over, so that each of them attaches the consumerd to the route of the last toolchain of the list.

* `updateSenderToolchains` — the whole call, without a step of another goroutine in between; the router
  of `Routes` can take these steps (`reach_update`).
* `attachesNew_iff` — the consumerd is attached to the route of each new toolchain, once for each of
  them, exactly if all new toolchains have the hash of the last one of the list, and no two of them are
  equivalent.
-/

import Kubecc.Scheduler.Routes

namespace Kubecc.Scheduler.SenderUpdate

open Kubecc.Lib Kubecc.Go Kubecc.Types Kubecc.Scheduler.Routes

/-! ### The call -/

/-- The first loop: the router after it, and the goroutines it starts. -/
def dropLoop (md5 : GoString → GoString) (tcs : List Toolchain) :
    Router → List Toolchain → Router × List RouterProc
  | r, [] => (r, [])
  | r, oldTc :: old =>
    if stillExists tcs oldTc then dropLoop md5 tcs r old
    else
      let hash := tcHash md5 oldTc
      let after := dropLoop md5 tcs ((r.ensure hash).cancel (r.routeFor hash)) old
      (after.1, r.spawned hash ++ after.2)

/-- The deferred calls, with the toolchains they read. -/
def attachLoop (md5 : GoString → GoString) (cd : ConsumerdId) :
    Router → List Toolchain → Router × List RouterProc
  | r, [] => (r, [])
  | r, tc :: tcs =>
    let hash := tcHash md5 tc
    let after := attachLoop md5 cd ((r.ensure hash).addRefCount (r.routeFor hash) 1 (.sender cd)) tcs
    (after.1, r.spawned hash ++ .attached (.sender cd) (r.routeFor hash) :: after.2)

/-- **`UpdateSenderToolchains`**: what is shared after the call, and the goroutines it starts. -/
def updateSenderToolchains (md5 : GoString → GoString) (mem : Shared) (cd : ConsumerdId)
    (tcs : List Toolchain) : Shared × List RouterProc :=
  if mem.added (.sender cd) then
    let old := mem.router.toolchains cd
    let dropped := dropLoop md5 tcs (mem.router.setMutex true (.sender cd)) old
    let attached := attachLoop md5 cd
      { dropped.1 with toolchains := Function.update dropped.1.toolchains cd tcs } (deferred old tcs)
    ({ mem with router := attached.1.setMutex false (.sender cd) }, dropped.2 ++ attached.2)
  else (mem, [])

/-- What `EquivalentTo` compares. -/
def compared (tc : Toolchain) : ToolchainKind × ToolchainLang × GoString × GoString :=
  (tc.kind, tc.lang, tc.targetArch, tc.version)

/-- The toolchains of the list that are not among the old ones. -/
def newOnes (old tcs : List Toolchain) : List Toolchain := tcs.filter (isNew old)

/-- How many of these toolchains, no two of them equivalent, have this hash. -/
def distinct (md5 : GoString → GoString) (tcs : List Toolchain) (hash : GoString) : ℕ :=
  ((tcs.filter (tcHash md5 · = hash)).map compared).dedup.length

/-- **The update attaches every new toolchain**: the route of each stands in the table, and the consumerd
has been attached to it once for each distinct new toolchain of this route. -/
def AttachesNew (md5 : GoString → GoString) (mem : Shared) (cd : ConsumerdId) (tcs : List Toolchain) :
    Prop :=
  ∀ tc ∈ newOnes (mem.router.toolchains cd) tcs, ∃ rt,
    (updateSenderToolchains md5 mem cd tcs).1.router.routes (tcHash md5 tc) = some rt ∧
    (updateSenderToolchains md5 mem cd tcs).2.count (.attached (.sender cd) rt) =
      distinct md5 (newOnes (mem.router.toolchains cd) tcs) (tcHash md5 tc)

/-! ### The loops -/

section Loops

variable {md5 : GoString → GoString} {r : Router}

theorem ensure_routes_of_some {hash other : GoString} {rt : RouteId}
    (entry : r.routes other = some rt) : (r.ensure hash).routes other = some rt := by
  unfold Router.ensure
  split
  · exact entry
  · rename_i absent
    have differs : other ≠ hash := by
      rintro rfl
      exact absurd (absent.symm.trans entry) nofun
    exact (Function.update_of_ne differs _ _).trans entry

theorem count_spawned (cd : ConsumerdId) (rt : RouteId) (hash : GoString) :
    (r.spawned hash).count (.attached (.sender cd) rt) = 0 := by
  refine List.count_eq_zero.mpr fun member => ?_
  exact Router.forall_mem_spawned (P := (· ≠ .attached (.sender cd) rt)) (fun _ => nofun) hash _ member rfl

theorem dropLoop_spec (tcs : List Toolchain) (kept : r.Kept) (old : List Toolchain) :
    (dropLoop md5 tcs r old).1.Kept ∧
      ∀ cd rt, (dropLoop md5 tcs r old).2.count (.attached (.sender cd) rt) = 0 := by
  induction old generalizing r with
  | nil => exact ⟨kept, fun _ _ => rfl⟩
  | cons oldTc old ih =>
    rw [dropLoop]
    split
    · exact ih kept
    · obtain ⟨after, none⟩ := @ih ((r.ensure (tcHash md5 oldTc)).cancel (r.routeFor (tcHash md5 oldTc)))
        (Router.kept_setRoute (Router.kept_ensure kept _) rfl rfl)
      refine ⟨after, fun cd rt => ?_⟩
      rw [List.count_append, count_spawned, Nat.zero_add]
      exact none cd rt

theorem attachLoop_spec (cd : ConsumerdId) (kept : r.Kept) (tcs : List Toolchain) :
    (attachLoop md5 cd r tcs).1.Kept ∧
      (∀ hash rt, r.routes hash = some rt → (attachLoop md5 cd r tcs).1.routes hash = some rt) ∧
      (∀ tc ∈ tcs, ∃ rt, (attachLoop md5 cd r tcs).1.routes (tcHash md5 tc) = some rt) ∧
      ∀ hash rt, (attachLoop md5 cd r tcs).1.routes hash = some rt →
        (attachLoop md5 cd r tcs).2.count (.attached (.sender cd) rt) =
          tcs.countP (tcHash md5 · = hash) := by
  induction tcs generalizing r with
  | nil => exact ⟨kept, fun _ _ entry => entry, List.forall_mem_nil _, fun _ _ _ => rfl⟩
  | cons tc tcs ih =>
    rw [attachLoop]
    set hash := tcHash md5 tc with isHash
    set next := (r.ensure hash).addRefCount (r.routeFor hash) 1 (.sender cd)
    have entry : next.routes hash = some (r.routeFor hash) := Router.ensure_routes_self hash
    obtain ⟨keptAfter, stays, found, counts⟩ :=
      @ih next (Router.kept_addRefCount (Router.kept_ensure kept _) _ _)
    refine ⟨keptAfter, fun other rt there => stays other rt (ensure_routes_of_some there),
      List.forall_mem_cons.mpr ⟨⟨_, stays _ _ entry⟩, found⟩, fun other rt there => ?_⟩
    rw [List.count_append, count_spawned, Nat.zero_add, List.count_cons, counts other rt there,
      List.countP_cons]
    have same : r.routeFor hash = rt ↔ hash = other := by
      constructor
      · rintro rfl
        rw [← keptAfter.own _ _ (stays _ _ entry), keptAfter.own _ _ there]
      · rintro rfl
        exact Option.some.inj ((stays _ _ entry).symm.trans there)
    simp only [beq_iff_eq, RouterProc.attached.injEq, true_and, same, decide_eq_true_eq, ← isHash]

end Loops

/-! ### The call is a run of the router -/

section Runs

variable {md5 : GoString → GoString} {start : Routes.State} {mem : Shared} {cd : ConsumerdId}
  {tcs : List Toolchain} {rest : Multiset RouterProc}

theorem coe_cons_add (proc : RouterProc) (more : List RouterProc) (rest : Multiset RouterProc) :
    (↑(proc :: more) + rest : Multiset RouterProc) = ↑[proc] + (↑more + rest) := by
  rw [← add_assoc, Multiset.coe_add]
  rfl

theorem coe_append_add (procs more : List RouterProc) (rest : Multiset RouterProc) :
    (↑(procs ++ more) + rest : Multiset RouterProc) = ↑more + (↑procs + rest) := by
  rw [← Multiset.coe_add, add_comm (↑procs : Multiset RouterProc), add_assoc]

theorem reach_dropLoop (old : List Toolchain)
    (reach : Reach (Routes.Rule md5) (fun _ _ => True) start
      ⟨mem, ↑[RouterProc.dropping cd old tcs] + rest⟩) :
    Reach (Routes.Rule md5) (fun _ _ => True) start
      ⟨{ mem with router := (dropLoop md5 tcs mem.router old).1 },
        ↑[RouterProc.dropping cd [] tcs] + (↑(dropLoop md5 tcs mem.router old).2 + rest)⟩ := by
  induction old generalizing mem rest with
  | nil =>
    rw [dropLoop, Multiset.coe_nil, zero_add]
    exact reach
  | cons oldTc old ih =>
    rw [dropLoop]
    split
    · rename_i still
      exact ih (reach.step trivial (.fire _ (.router (.keep still))))
    · rename_i dropped
      have found := reach.step trivial
        (.fire _ (.router (.drop (Bool.eq_false_iff.mpr dropped))))
      rw [coe_cons_add] at found
      have cancelled := ih (found.step trivial (.fire _ (.router .cancel)))
      dsimp only
      rw [coe_append_add]
      exact cancelled

theorem reach_attachLoop (tcs : List Toolchain)
    (reach : Reach (Routes.Rule md5) (fun _ _ => True) start
      ⟨mem, ↑[RouterProc.attaching (.sender cd) tcs false] + rest⟩) :
    Reach (Routes.Rule md5) (fun _ _ => True) start
      ⟨{ mem with router := (attachLoop md5 cd mem.router tcs).1 },
        ↑[RouterProc.attaching (.sender cd) [] false] + (↑(attachLoop md5 cd mem.router tcs).2 + rest)⟩ := by
  induction tcs generalizing mem rest with
  | nil =>
    rw [attachLoop, Multiset.coe_nil, zero_add]
    exact reach
  | cons tc tcs ih =>
    rw [attachLoop]
    have found := reach.step trivial (.fire _ (.router .lookup))
    rw [coe_cons_add] at found
    have attached := found.step trivial (.fire _ (.router .attach))
    rw [coe_cons_add] at attached
    have others := ih attached
    dsimp only
    rw [coe_append_add, coe_cons_add (.attached (.sender cd) _),
      add_left_comm (↑[RouterProc.attached _ _] : Multiset RouterProc)]
    exact others

theorem dropLoop_toolchains (r : Router) (old : List Toolchain) :
    (dropLoop md5 tcs r old).1.toolchains = r.toolchains := by
  induction old generalizing r with
  | nil => rfl
  | cons oldTc old ih =>
    rw [dropLoop]
    split
    · exact ih r
    · exact (ih _).trans (Router.ensure_toolchains _)

/-- **The call is a run of the router**, in which nobody else takes a step. -/
theorem reach_update (registered : mem.added (.sender cd) = true)
    (free : mem.router.sendersMutex = false)
    (reach : Reach (Routes.Rule md5) (fun _ _ => True) start
      ⟨mem, ↑[RouterProc.update cd tcs] + rest⟩) :
    Reach (Routes.Rule md5) (fun _ _ => True) start
      ⟨(updateSenderToolchains md5 mem cd tcs).1,
        ↑(updateSenderToolchains md5 mem cd tcs).2 + rest⟩ := by
  have dropped := reach_dropLoop _ (reach.step trivial (.fire _ (.router (.updateLock free))))
  have updated := dropped.step trivial (.fire _ (.router .update))
  dsimp only at updated
  rw [dropLoop_toolchains] at updated
  have unlocked := (reach_attachLoop _ updated).step trivial (.fire _ (.router .unlock))
  rw [Multiset.coe_nil, zero_add] at unlocked
  rw [updateSenderToolchains, if_pos registered]
  dsimp only
  rw [coe_append_add, dropLoop_toolchains]
  exact unlocked

end Runs

/-! ### What is attached -/

section Attached

variable {md5 : GoString → GoString} {mem : Shared} {cd : ConsumerdId} {tcs : List Toolchain}

theorem distinct_pos {tc : Toolchain} (member : tc ∈ tcs) : 0 < distinct md5 tcs (tcHash md5 tc) := by
  refine List.length_pos_of_mem (List.mem_dedup.mpr (List.mem_map.mpr ⟨tc, ?_, rfl⟩))
  exact List.mem_filter.mpr ⟨member, decide_eq_true rfl⟩

theorem attachesNew_iff_deferred (kept : mem.router.Kept) (registered : mem.added (.sender cd) = true) :
    AttachesNew md5 mem cd tcs ↔ ∀ tc ∈ newOnes (mem.router.toolchains cd) tcs,
      (deferred (mem.router.toolchains cd) tcs).countP (tcHash md5 · = tcHash md5 tc) =
        distinct md5 (newOnes (mem.router.toolchains cd) tcs) (tcHash md5 tc) := by
  rw [AttachesNew, updateSenderToolchains, if_pos registered]
  dsimp only
  set old := mem.router.toolchains cd
  obtain ⟨keptDrop, none⟩ :=
    @dropLoop_spec md5 _ tcs (Router.kept_setMutex kept true (.sender cd)) old
  set dropped := dropLoop md5 tcs (mem.router.setMutex true (.sender cd)) old
  obtain ⟨-, -, found, counts⟩ := @attachLoop_spec md5
    { dropped.1 with toolchains := Function.update dropped.1.toolchains cd tcs } cd
    ⟨keptDrop.isOpen, keptDrop.own, keptDrop.made⟩ (deferred old tcs)
  refine forall₂_congr fun tc member => ?_
  constructor
  · rintro ⟨rt, entry, count⟩
    rwa [List.count_append, none, Nat.zero_add, counts _ _ entry] at count
  · intro count
    have some : 0 < (deferred old tcs).countP (tcHash md5 · = tcHash md5 tc) :=
      count ▸ distinct_pos member
    obtain ⟨other, attached, same⟩ := List.countP_pos_iff.mp some
    obtain ⟨rt, entry⟩ := found other attached
    rw [of_decide_eq_true same] at entry
    refine ⟨rt, entry, ?_⟩
    rw [List.count_append, none, Nat.zero_add, counts _ _ entry, count]

theorem equivalentTo_iff_compared {tc other : Toolchain} :
    tc.equivalentTo other = true ↔ compared tc = compared other := by
  rw [Toolchain.equivalentTo_iff, compared, compared, Prod.mk.injEq, Prod.mk.injEq, Prod.mk.injEq]

theorem length_dedup_compared_iff : (tcs.map compared).dedup.length = tcs.length ↔
    tcs.Pairwise fun tc other => tc.equivalentTo other = false := by
  have apart : ∀ tc other : Toolchain,
      tc.equivalentTo other = false ↔ compared tc ≠ compared other := fun tc other => by
    rw [Ne, ← equivalentTo_iff_compared, Bool.not_eq_true]
  simp only [apart]
  rw [← List.pairwise_map, ← List.length_map (f := compared)]
  constructor
  · intro same
    exact List.dedup_eq_self.mp ((List.dedup_sublist _).eq_of_length same)
  · intro nodup
    rw [List.dedup_eq_self.mpr nodup]

/-- **When an update attaches every new toolchain**: all of them have the hash of the last toolchain of
the list, and no two of them are equivalent. -/
theorem attachesNew_iff {config : Routes.State}
    (reach : Reach (Routes.Rule md5) (fun _ _ => True) Routes.initial config)
    (cd : ConsumerdId) (registered : config.mem.added (.sender cd) = true) (tcs : List Toolchain) :
    AttachesNew md5 config.mem cd tcs ↔
      (∀ tc ∈ newOnes (config.mem.router.toolchains cd) tcs,
        tcs.getLast?.map (tcHash md5) = some (tcHash md5 tc)) ∧
      (newOnes (config.mem.router.toolchains cd) tcs).Pairwise
        fun tc other => tc.equivalentTo other = false := by
  have sound : Sound config := reach.invariant Sound sound_initial fun sound _ => sound_step sound
  rw [attachesNew_iff_deferred sound.kept registered, ← length_dedup_compared_iff]
  cases isLast : tcs.getLast? with
  | none =>
    obtain rfl := List.getLast?_eq_none_iff.mp isLast
    exact iff_of_true (List.forall_mem_nil _) ⟨List.forall_mem_nil _, rfl⟩
  | some last =>
    have calls : deferred (config.mem.router.toolchains cd) tcs =
        List.replicate (newOnes (config.mem.router.toolchains cd) tcs).length last := by
      rw [deferred, isLast]
      rfl
    set news := newOnes (config.mem.router.toolchains cd) tcs
    have all : (∀ tc ∈ news, tcHash md5 last = tcHash md5 tc) → ∀ tc ∈ news,
        distinct md5 news (tcHash md5 tc) = (news.map compared).dedup.length := by
      intro same tc member
      rw [distinct, List.filter_eq_self.mpr fun other there =>
        decide_eq_true ((same other there).symm.trans (same tc member))]
    simp only [calls, List.countP_replicate, decide_eq_true_eq, Option.map_some, Option.some_inj]
    constructor
    · intro counts
      have same : ∀ tc ∈ news, tcHash md5 last = tcHash md5 tc := by
        intro tc member
        by_contra differs
        have count := counts tc member
        rw [if_neg differs] at count
        exact absurd count (distinct_pos member).ne
      refine ⟨same, ?_⟩
      cases isNews : news with
      | nil => rfl
      | cons tc rest =>
        have member : tc ∈ news := isNews ▸ List.mem_cons_self
        have count := counts tc member
        rw [if_pos (same tc member), all same tc member] at count
        exact isNews ▸ count.symm
    · rintro ⟨same, count⟩ tc member
      rw [if_pos (same tc member), all same tc member, count]

end Attached

/-! ### Two updates -/

def gcc : Toolchain := ⟨1, 1, bytes "/usr/bin/gcc", bytes "amd64", bytes "11", false, false⟩

theorem added_run : ∃ mem, Reach (Routes.Rule id) (fun _ _ => True) Routes.initial (.ofList mem []) ∧
    mem = { Routes.initial.mem with
      connected := Function.update Routes.initial.mem.connected (.sender 0) true
      added := Function.update Routes.initial.mem.added (.sender 0) true
      router := { Routes.initial.mem.router with
        toolchains := Function.update Routes.initial.mem.router.toolchains 0 [] } } := by
  have h0 : Reach (Routes.Rule id) (fun _ _ => True) Routes.initial (.ofList Routes.initial.mem []) := .start
  have h1 := h0.next [] [] (.connectSender 0 [] rfl) trivial (.refl _)
  have h2 := h1.next [.add (.sender 0) []] [] (.router (.lock rfl)) trivial (.refl _)
  have h3 := h2.next [.attaching (.sender 0) [] true] [] .added trivial (.refl _)
  exact ⟨_, h3, rfl⟩

theorem update_gcc_reached : ∃ config, Reach (Routes.Rule id) (fun _ _ => True) Routes.initial config ∧
    config.mem.router.toolchains 0 = [gcc] ∧ RouterProc.attached (.sender 0) 0 ∈ config.procs := by
  obtain ⟨_, run, rfl⟩ := added_run
  have called := run.next [] [] (.update 0 [gcc] rfl) trivial (.refl _)
  have updated := @reach_update id _ _ 0 [gcc] 0 rfl rfl called
  exact ⟨_, updated, rfl, by decide⟩

theorem attachesNew_one : ∃ config, Reach (Routes.Rule id) (fun _ _ => True) Routes.initial config ∧
    config.mem.added (.sender 0) = true ∧ newOnes (config.mem.router.toolchains 0) [gcc] = [gcc] ∧
    AttachesNew id config.mem 0 [gcc] := by
  obtain ⟨mem, reach, rfl⟩ := added_run
  exact ⟨_, reach, rfl, rfl, (attachesNew_iff reach 0 rfl [gcc]).mpr ⟨by decide, by decide⟩⟩

/-- Of two new toolchains the first gets no route, and the consumerd is attached to that of the second
twice. -/
theorem first_left_out : ∃ config, Reach (Routes.Rule id) (fun _ _ => True) Routes.initial config ∧
    config.mem.added (.sender 0) = true ∧
    newOnes (config.mem.router.toolchains 0) [gcc, clang] = [gcc, clang] ∧
    (updateSenderToolchains id config.mem 0 [gcc, clang]).1.router.routes (tcHash id gcc) = none ∧
    (updateSenderToolchains id config.mem 0 [gcc, clang]).2 =
      [.closer 0, .attached (.sender 0) 0, .attached (.sender 0) 0] ∧
    ¬ AttachesNew id config.mem 0 [gcc, clang] := by
  obtain ⟨mem, reach, rfl⟩ := added_run
  refine ⟨_, reach, rfl, rfl, rfl, rfl, fun attaches => ?_⟩
  obtain ⟨rt, entry, -⟩ := attaches gcc (by decide)
  exact absurd entry nofun

end Kubecc.Scheduler.SenderUpdate
