import Mtc.Net.Lifecycle
import Mtc.Net.Proof.Shutdown

/-!
# Initialising and freeing a message handle

`likeNew_iff`: along which sequences of `init_handle` and `free_handle` the handle is like a new one
after every call. `free_handle` clears neither `host_config_map` nor `mess_group_map`, so that a
name of an earlier configuration that is missing in a later one stays: the host is still found, and
the group is a pointer to a deleted object, which `check_mess_type` looks at and the next
`free_handle` deletes again (`not_likeNew`). It does not return if a group has no connection, since
the destructor of the group then does not (`destructorReturns_iff`).
-/

namespace Net

theorem GroupItem.port_groupInfor (item : GroupItem) (localHostName hostName : Bytes) :
    ((item.groupInfor localHostName).hostPortMap.findKey hostName).getD 0 =
      ((item.hosts.reverse.find? fun host => host.1 = hostName).map (·.2)).getD 0 := by
  rw [GroupItem.groupInfor, AssocMap.findKey_access_getD,
    AssocMap.findKey_foldl_assign (fun host : Bytes × Int32 => host.1) (·.2)]
  simp

theorem GroupItem.messType_groupInfor (item : GroupItem)
    (localHostName messType : Bytes) :
    ((item.groupInfor localHostName).messCallbackMap.findKey messType).isSome ↔
      messType ∈ item.messType := by
  have hfind := AssocMap.findKey_foldl_assign (fun messType : Bytes => messType)
    (fun _ => ({} : CallbackInfor)) item.messType ∅ messType
  rw [GroupItem.groupInfor, hfind]
  simp

namespace PtrHandle

variable {h : PtrHandle} {c : Config}

/-! ## Groups -/

/-- The object of a group; `some none` is a pointer to a deleted one. -/
def lookup (h : PtrHandle) (groupName : Bytes) : Option (Option GroupInfor) :=
  (h.messGroupMap.findKey groupName).map h.heap.get

theorem getPort_fst (h : PtrHandle) (hostName groupName : Bytes) :
    (h.getPort hostName groupName).map Prod.fst =
      match h.lookup groupName with
      | none => some 0
      | some o => o.map fun group => (group.hostPortMap.findKey hostName).getD 0 := by
  unfold getPort lookup
  cases h.messGroupMap.findKey groupName with
  | none => rfl
  | some p =>
    simp only [Option.map_some, Option.map_map]
    rfl

theorem checkMessType_eq (h : PtrHandle) (groupName messType : Bytes) :
    h.checkMessType groupName messType =
      match h.lookup groupName with
      | none => some (some .groupNotFound)
      | some o => o.map fun group =>
        if (group.messCallbackMap.findKey messType).isSome then none
        else some .messTypeNotFound := by
  unfold checkMessType lookup
  cases h.messGroupMap.findKey groupName with
  | none => rfl
  | some p => rfl

/-- What holds in every run: each group has a pointer of its own, which was given out, and the locks
of a group that exists are not held. -/
structure Inv (h : PtrHandle) : Prop where
  lt : ∀ g p, h.messGroupMap.findKey g = some p → p < h.heap.next
  inj : ∀ g g' p, h.messGroupMap.findKey g = some p → h.messGroupMap.findKey g' = some p → g = g'
  rest : ∀ p group, h.heap.get p = some group → group.handle.AtRest

theorem Inv.taken (hi : h.Inv) : Inv { h with thisFree := false } := ⟨hi.lt, hi.inj, hi.rest⟩

theorem Inv.initGroup (hi : h.Inv) (item : GroupItem) : (h.initGroup item).Inv := by
  have hfind : ∀ {g p}, (h.initGroup item).messGroupMap.findKey g = some p →
      g = item.groupName ∧ p = h.heap.next ∨ h.messGroupMap.findKey g = some p := by
    intro g p hg
    rw [PtrHandle.initGroup, AssocMap.findKey_assign] at hg
    split_ifs at hg with hname
    · cases hg
      exact Or.inl ⟨hname, rfl⟩
    · exact Or.inr hg
  constructor
  · intro g p hg
    show p < h.heap.next + 1
    rcases hfind hg with ⟨-, rfl⟩ | hg
    · omega
    · have := hi.lt g p hg
      omega
  · intro g g' p hg hg'
    rcases hfind hg with ⟨hname, hp⟩ | hg <;> rcases hfind hg' with ⟨hname', hp'⟩ | hg'
    · rw [hname, hname']
    · -- an older pointer is not the new one
      exact absurd hp (Nat.ne_of_lt (hi.lt g' p hg'))
    · exact absurd hp' (Nat.ne_of_lt (hi.lt g p hg))
    · exact hi.inj g g' p hg hg'
  · intro p group hp
    rw [PtrHandle.initGroup, Heap.get_alloc] at hp
    split_ifs at hp
    · cases hp
      exact ⟨rfl, rfl⟩
    · exact hi.rest p group hp

theorem Inv.lookup_initGroup (hi : h.Inv) (item : GroupItem) (g : Bytes) :
    (h.initGroup item).lookup g =
      if g = item.groupName then some (some (item.groupInfor h.localHostName))
      else h.lookup g := by
  unfold lookup PtrHandle.initGroup
  rw [AssocMap.findKey_assign]
  split_ifs with hname
  · rw [Option.map_some, Heap.get_alloc, if_pos rfl]
  · cases hg : h.messGroupMap.findKey g with
    | none => rfl
    | some p =>
      rw [Option.map_some, Option.map_some, Heap.get_alloc, if_neg (Nat.ne_of_lt (hi.lt g p hg))]

theorem initGroups_frame (items : List GroupItem) (h : PtrHandle) :
    (items.foldl PtrHandle.initGroup h).hostConfigMap = h.hostConfigMap ∧
      (items.foldl PtrHandle.initGroup h).thisFree = h.thisFree := by
  induction items generalizing h with
  | nil => exact ⟨rfl, rfl⟩
  | cons item items ih => exact ih (h.initGroup item)

theorem Inv.initGroups (hi : h.Inv) (items : List GroupItem) :
    (items.foldl PtrHandle.initGroup h).Inv := by
  induction items generalizing h with
  | nil => exact hi
  | cons item items ih => exact ih (hi.initGroup item)

/-- The groups after `init_group_infor_map`, and those that were there before. -/
theorem Inv.lookup_initGroups (hi : h.Inv) (items : List GroupItem) (g : Bytes) :
    (items.foldl PtrHandle.initGroup h).lookup g =
      ((items.reverse.find? fun item => item.groupName = g).map fun item =>
        some (item.groupInfor h.localHostName)).or (h.lookup g) := by
  apply AssocMap.foldl_last (I := fun h' => h'.Inv ∧ h'.localHostName = h.localHostName)
  · exact fun h' item hi' => ⟨hi'.1.initGroup item, hi'.2⟩
  · intro h' item g hi'
    rw [hi'.1.lookup_initGroup, hi'.2]
  · exact ⟨hi, rfl⟩

/-! ## `read_config` -/

/-- Reading the hosts touches nothing else but `local_host_name`. -/
theorem readHosts_frame (hosts : List HostItem) (h : PtrHandle) :
    (hosts.foldl readHost h).messGroupMap = h.messGroupMap ∧
      (hosts.foldl readHost h).heap = h.heap ∧
      (hosts.foldl readHost h).thisFree = h.thisFree := by
  induction hosts generalizing h with
  | nil => exact ⟨rfl, rfl, rfl⟩
  | cons host hosts ih => exact ih (h.readHost host)

/-- The hosts, and those that were there before. -/
theorem getIp_readHosts (hosts : List HostItem) (h : PtrHandle) (hostName : Bytes) :
    (hosts.foldl readHost h).getIp hostName =
      ((hosts.reverse.find? fun host => host.name = hostName).map (·.ip)).or
        (h.getIp hostName) := by
  apply AssocMap.foldl_last (I := fun _ => True)
  · exact fun _ _ _ => trivial
  · exact fun h host hostName _ => AssocMap.findKey_assign h.hostConfigMap _ hostName _
  · trivial

section
variable (hi : h.Inv) (c : Config)
include hi

theorem Inv.readHosts : (c.hosts.foldl readHost h).Inv := by
  obtain ⟨hmap, hheap, -⟩ := readHosts_frame c.hosts h
  constructor
  · rw [hmap, hheap]
    exact hi.lt
  · rw [hmap]
    exact hi.inj
  · rw [hheap]
    exact hi.rest

theorem Inv.readConfig : (h.readConfig c).Inv := (hi.readHosts c).initGroups c.groups

omit hi in
theorem thisFree_readConfig : (h.readConfig c).thisFree = h.thisFree :=
  (initGroups_frame c.groups _).2.trans (readHosts_frame c.hosts h).2.2

omit hi in
theorem getIp_readConfig (hostName : Bytes) :
    (h.readConfig c).getIp hostName = (c.ip hostName).or (h.getIp hostName) := by
  rw [readConfig, getIp, (initGroups_frame c.groups _).1]
  exact getIp_readHosts c.hosts h hostName

/-- The groups and those that were there before. -/
theorem Inv.lookup_readConfig : ∃ localHostName, ∀ g, (h.readConfig c).lookup g =
    ((c.group g).map fun item => some (item.groupInfor localHostName)).or (h.lookup g) := by
  obtain ⟨hmap, hheap, -⟩ := readHosts_frame c.hosts h
  refine ⟨(c.hosts.foldl readHost h).localHostName, fun g => ?_⟩
  rw [PtrHandle.readConfig, (hi.readHosts c).lookup_initGroups]
  simp only [lookup, hmap, hheap]
  rfl

/-- The handle is as configured exactly if all names it had are in the configuration. -/
theorem Inv.asConfigured_readConfig_iff :
    AsConfigured (h.readConfig c) c ↔
      (∀ hostName, h.getIp hostName ≠ none → c.ip hostName ≠ none) ∧
        ∀ g, h.lookup g ≠ none → c.group g ≠ none := by
  obtain ⟨localHostName, hlookup⟩ := hi.lookup_readConfig c
  constructor
  · intro hc
    refine ⟨fun hostName hip hno => ?_, fun g hg hno => ?_⟩
    · have hfind := hc.ip hostName
      rw [getIp_readConfig, hno, Option.none_or] at hfind
      exact hip hfind
    · -- the check finds the old group, or a deleted object
      have hcheck := hc.check g []
      obtain ⟨o, ho⟩ := Option.ne_none_iff_exists'.1 hg
      rw [checkMessType_eq, hlookup, hno, Option.map_none, Option.none_or, ho, Config.check,
        hno] at hcheck
      cases o with
      | none => cases hcheck
      | some group =>
        simp only [Option.map_some, Option.some.injEq] at hcheck
        split_ifs at hcheck
        cases hcheck
  · rintro ⟨hips, hgroups⟩
    have hg : ∀ g, (h.readConfig c).lookup g =
        (c.group g).map fun item => some (item.groupInfor localHostName) := by
      intro g
      rw [hlookup]
      cases hcg : c.group g with
      | some item => rfl
      | none => simpa using not_imp_not.1 (hgroups g) hcg
    refine ⟨fun hostName => ?_, fun hostName g => ?_, fun g messType => ?_⟩
    · rw [getIp_readConfig]
      cases hip : c.ip hostName with
      | some ip => rfl
      | none => simpa using not_imp_not.1 (hips hostName) hip
    · rw [getPort_fst, hg, Config.port]
      cases c.group g with
      | none => rfl
      | some item => simp [item.port_groupInfor]
    · rw [checkMessType_eq, hg, Config.check]
      cases c.group g with
      | none => rfl
      | some item => simp [item.messType_groupInfor]

end

/-! ## `free_handle` -/

/-- The destructor of a group returns exactly if the group has a connection. -/
theorem destructorReturns_iff {group : GroupInfor} (hr : group.handle.AtRest) (junk : Nat → Int32)
    (fuel : Nat) : group.destructorReturns junk (fuel + 1) = true ↔
      group.handle.bevMap.entries.isEmpty = false := by
  unfold GroupInfor.destructorReturns
  rw [← Bool.not_eq_true, List.isEmpty_iff]
  by_cases he : group.handle.bevMap.entries = []
  · refine iff_of_false ?_ (not_not.2 he)
    split
    next hf => exact absurd hf (Handle.freeHandle_empty he)
    next => exact Bool.false_ne_true
  · rw [Handle.freeHandle_cleared he hr]
    exact iff_of_true rfl he

/-- The groups have different pointers. -/
theorem Inv.nodup (hi : h.Inv) : (h.messGroupMap.entries.map Prod.snd).Nodup := by
  have hkeys := h.messGroupMap.nodup
  refine (List.nodup_map_iff_inj_on hkeys.of_map).2 fun e he e' he' hp => ?_
  have hg : h.messGroupMap.findKey e.1 = some e.2 := AssocMap.findKey_eq_some_iff.2 he
  have hg' : h.messGroupMap.findKey e'.1 = some e.2 := by
    rw [hp]
    exact AssocMap.findKey_eq_some_iff.2 he'
  exact Prod.ext (hi.inj _ _ _ hg hg') hp

/-- The groups of a handle as configured exist. -/
theorem exists_group (hc : AsConfigured h c) {e : Bytes × Nat} (he : e ∈ h.messGroupMap.entries) :
    ∃ group, h.heap.get e.2 = some group := by
  refine Option.ne_none_iff_exists'.1 fun hno => ?_
  have hcheck := hc.check e.1 []
  rw [checkMessType_eq, lookup, AssocMap.findKey_eq_some_iff.2 he, Option.map_some, hno] at hcheck
  cases hcheck

section
variable {junk : Nat → Nat → Int32} {fuel : Nat}

/-- A handle as configured can be freed exactly if every group has a connection. -/
theorem Inv.freeHandle_iff (hi : h.Inv) (hc : AsConfigured h c) (hf : h.thisFree = false) :
    (∃ x, h.freeHandle junk (fuel + 1) = some x) ↔ ∀ e ∈ h.messGroupMap.entries,
      ∀ group ∈ h.heap.get e.2, group.handle.bevMap.entries.isEmpty = false := by
  have hexists : (∃ x, h.freeHandle junk (fuel + 1) = some x) ↔
      ∃ heap, Heap.deleteAll (fun p group => group.destructorReturns (junk p) (fuel + 1))
        (h.messGroupMap.entries.map Prod.snd) h.heap = some heap := by
    rw [freeHandle, if_neg (by simp [hf])]
    simp only [← Option.isSome_iff_exists, Option.isSome_map]
  rw [hexists, Heap.exists_deleteAll_iff hi.nodup, List.forall_mem_map]
  refine forall_congr' fun e => forall_congr' fun he => ?_
  obtain ⟨group, hgroup⟩ := exists_group hc he
  have hreturns := destructorReturns_iff (hi.rest _ _ hgroup) (junk e.2) fuel
  simp only [hgroup, Option.some.injEq, exists_eq_left', Option.mem_def, forall_eq', hreturns]

theorem Inv.of_freeHandle (hi : h.Inv) {x : Bool × PtrHandle}
    (hx : h.freeHandle junk fuel = some x) : x.2.Inv ∧ x.2.thisFree = true := by
  unfold PtrHandle.freeHandle at hx
  split_ifs at hx with hf
  · cases hx
    exact ⟨hi, hf⟩
  · obtain ⟨heap, hheap, rfl⟩ := Option.map_eq_some_iff.1 hx
    refine ⟨⟨fun g p hg => ?_, hi.inj, fun p group hp => ?_⟩, rfl⟩
    · show p < heap.next
      rw [Heap.next_deleteAll hheap]
      exact hi.lt g p hg
    · exact hi.rest p group (Heap.get_deleteAll hheap hp)

end

/-! ## Connections -/

section
variable {f : LibeventHandle → Except Fault LibeventHandle} {h' : PtrHandle}

theorem onGroup_cases {g : Bytes} (ho : h.onGroup g f = some h') : h' = h ∨
    ∃ p group lib, h.heap.get p = some group ∧ f group.handle = .ok lib ∧
      h' = { h with heap := h.heap.set p { group with handle := lib } } := by
  unfold onGroup at ho
  split at ho
  next => exact Or.inl (Option.some_inj.1 ho).symm
  next p _ =>
    split at ho
    next => exact Or.inl (Option.some_inj.1 ho).symm
    next group hgroup =>
      split at ho
      next lib hlib => exact Or.inr ⟨p, group, lib, hgroup, hlib, (Option.some_inj.1 ho).symm⟩
      next => cases ho

/-- The settings of a group stay. -/
theorem asConfigured_onGroup {g : Bytes} (hc : AsConfigured h c)
    (ho : h.onGroup g f = some h') : AsConfigured h' c := by
  rcases onGroup_cases ho with rfl | ⟨p, group, lib, hgroup, -, rfl⟩
  · exact hc
  · have hlookup : ∀ g, h.lookup g = some (some group) ∧
        lookup { h with heap := h.heap.set p { group with handle := lib } } g =
          some (some { group with handle := lib }) ∨
        lookup { h with heap := h.heap.set p { group with handle := lib } } g = h.lookup g := by
      intro g
      unfold lookup
      cases h.messGroupMap.findKey g with
      | none => exact Or.inr rfl
      | some q =>
        simp only [Option.map_some, Heap.get_set hgroup]
        split_ifs with hq
        · rw [hq, hgroup]
          exact Or.inl ⟨rfl, rfl⟩
        · exact Or.inr rfl
    refine ⟨hc.ip, fun hostName g => ?_, fun g messType => ?_⟩
    · rw [← hc.port, getPort_fst, getPort_fst]
      rcases hlookup g with ⟨h₁, h₂⟩ | h₁
      · rw [h₁, h₂]
        rfl
      · rw [h₁]
    · rw [← hc.check, checkMessType_eq, checkMessType_eq]
      rcases hlookup g with ⟨h₁, h₂⟩ | h₁
      · rw [h₁, h₂]
        rfl
      · rw [h₁]

theorem thisFree_onGroup {g : Bytes} (ho : h.onGroup g f = some h') : h'.thisFree = h.thisFree := by
  rcases onGroup_cases ho with rfl | ⟨p, group, lib, -, -, rfl⟩ <;> rfl

section
variable (hi : h.Inv)
  (hf : ∀ lib : LibeventHandle, lib.AtRest → ∃ lib', f lib = .ok lib' ∧ lib'.AtRest)
include hi hf

theorem Inv.onGroup {g : Bytes} (ho : h.onGroup g f = some h') : h'.Inv := by
  rcases onGroup_cases ho with rfl | ⟨p, group, lib, hgroup, hlib, rfl⟩
  · exact hi
  · refine ⟨hi.lt, hi.inj, fun q group' hq => ?_⟩
    rw [Heap.get_set hgroup] at hq
    split_ifs at hq
    · cases hq
      obtain ⟨lib', hlib', hrest⟩ := hf _ (hi.rest p group hgroup)
      cases hlib.symm.trans hlib'
      exact hrest
    · exact hi.rest q group' hq

theorem Inv.exists_onGroup (g : Bytes) : ∃ h', h.onGroup g f = some h' := by
  unfold PtrHandle.onGroup
  split
  next => exact ⟨_, rfl⟩
  next p _ =>
    split
    next => exact ⟨_, rfl⟩
    next group hgroup =>
      obtain ⟨lib, hlib, -⟩ := hf _ (hi.rest p group hgroup)
      rw [hlib]
      exact ⟨_, rfl⟩

end

end

end PtrHandle

/-! ## The handle without pointers -/

/-- A handle as configured is an `EventMessageHandle` that answers in the same way. -/
theorem AsConfigured.view {h : PtrHandle} {c : Config} (hc : AsConfigured h c) :
    (∀ hostName, h.view.getIp hostName = c.ip hostName) ∧
      (∀ hostName g, (h.view.getPort hostName g).1 = c.port hostName g) ∧
      ∀ g messType, (h.view.callbackInfor g messType).isSome ↔ c.check g messType = none := by
  -- a group that is there is the object of the group
  have hgroup : ∀ g, h.lookup g = (h.view.messGroupMap.findKey g).map some := by
    intro g
    have hcheck := hc.check g []
    rw [PtrHandle.checkMessType_eq] at hcheck
    rw [PtrHandle.view, AssocMap.findKey_mapVal]
    unfold PtrHandle.lookup at hcheck ⊢
    cases hg : h.messGroupMap.findKey g with
    | none => rfl
    | some p =>
      cases hp : h.heap.get p with
      | none =>
        rw [hg, Option.map_some, hp] at hcheck
        cases hcheck
      | some group => simp [hp]
  refine ⟨hc.ip, fun hostName g => ?_, fun g messType => ?_⟩
  · have hport := hc.port hostName g
    rw [PtrHandle.getPort_fst, hgroup] at hport
    unfold EventMessageHandle.getPort
    cases hg : h.view.messGroupMap.findKey g with
    | none =>
      rw [hg] at hport
      exact Option.some_inj.1 hport
    | some group =>
      rw [hg] at hport
      simp only [Option.map_some, Option.some.injEq] at hport
      rw [← hport]
      dsimp only
      cases group.hostPortMap.findKey hostName with
      | none => rfl
      | some port => rfl
  · have hcheck := hc.check g messType
    rw [PtrHandle.checkMessType_eq, hgroup] at hcheck
    cases hg : h.view.messGroupMap.findKey g with
    | none =>
      rw [hg] at hcheck
      simp [EventMessageHandle.callbackInfor, hg, ← Option.some_inj.1 hcheck]
    | some group =>
      rw [hg] at hcheck
      simp only [Option.map_some, Option.some.injEq] at hcheck
      simp [EventMessageHandle.callbackInfor, hg, ← hcheck, Option.isSome_iff_ne_none]

/-! ## Names -/

theorem Config.ip_ne_none_iff {c : Config} {hostName : Bytes} :
    c.ip hostName ≠ none ↔ hostName ∈ c.hosts.map (·.name) := by
  simp [Config.ip]

theorem Config.group_ne_none_iff {c : Config} {g : Bytes} :
    c.group g ≠ none ↔ g ∈ c.groups.map (·.groupName) := by
  simp [Config.group]

theorem PtrHandle.lookup_ne_none_iff {h : PtrHandle} {g : Bytes} :
    h.lookup g ≠ none ↔ g ∈ h.messGroupMap.entries.map Prod.fst := by
  rw [lookup, ne_eq, Option.map_eq_none_iff, AssocMap.findKey_eq_none_iff, not_not]

theorem PtrHandle.getIp_ne_none_iff {h : PtrHandle} {hostName : Bytes} :
    h.getIp hostName ≠ none ↔ hostName ∈ h.hostConfigMap.entries.map Prod.fst := by
  rw [getIp, ne_eq, AssocMap.findKey_eq_none_iff, not_not]

/-! ## Sequences of calls -/

namespace LibeventHandle

variable {lib : LibeventHandle}

/-- A connection that is looked up or made leaves the locks free. -/
theorem atRest_getConnectionId (hl : lib.AtRest) (ip : Bytes) (port : Int32) (connects : Bool) :
    ∃ lib', (lib.getConnectionId ip port true connects).map Prod.snd = .ok lib' ∧ lib'.AtRest := by
  cases hc : lib.connectionOf ip port with
  | some e =>
    refine ⟨lib, ?_, hl⟩
    rw [getConnectionId_found hl.singal hc]
    rfl
  | none =>
    rw [getConnectionId_missing hl.singal hc, if_pos rfl]
    cases connects with
    | false => exact ⟨lib, rfl, hl⟩
    | true =>
      rw [addBuffereventConnect_eq hl.singal]
      exact ⟨_, rfl, hl.singal, hl.listenSingal⟩

theorem atRest_connlistenerCb (hl : lib.AtRest) (ip : Bytes) (sinPort : UInt16) :
    ∃ lib', lib.connlistenerCb ip sinPort = .ok lib' ∧ lib'.AtRest := by
  rcases connlistenerCb_cases hl ip sinPort with h | h
  · exact ⟨lib, h, hl⟩
  · exact ⟨_, h, hl.singal, hl.listenSingal⟩

end LibeventHandle

namespace Life

variable {s s' : Life} {junk : Nat → Nat → Int32} {fuel : Nat}

/-- **One call** keeps the invariant. -/
theorem inv_next {op : LifeOp} (hi : s.handle.Inv) (h : s.next junk fuel op = some s') :
    s'.handle.Inv := by
  cases op with
  | init c =>
    rw [next, PtrHandle.initHandle] at h
    split_ifs at h
    · cases h
      exact hi.taken.readConfig c
    · cases h
      exact hi
  | free =>
    obtain ⟨x, hx, rfl⟩ := Option.map_eq_some_iff.1 h
    exact (hi.of_freeHandle hx).1
  | connect g ip port connects =>
    obtain ⟨h', ho, rfl⟩ := Option.map_eq_some_iff.1 h
    exact hi.onGroup (fun _ hl => LibeventHandle.atRest_getConnectionId hl ip port connects) ho
  | accept g ip sinPort =>
    obtain ⟨h', ho, rfl⟩ := Option.map_eq_some_iff.1 h
    exact hi.onGroup (fun _ hl => LibeventHandle.atRest_connlistenerCb hl ip sinPort) ho

/-- A connection that is made or accepted leaves the handle like a new one. -/
theorem likeNew_onGroup (hi : s.handle.Inv) (hn : LikeNew s)
    {f : LibeventHandle → Except Fault LibeventHandle}
    (hf : ∀ lib : LibeventHandle, lib.AtRest → ∃ lib', f lib = .ok lib' ∧ lib'.AtRest) (g : Bytes) :
    ∃ s', (s.handle.onGroup g f).map (fun h => { s with handle := h }) = some s' ∧
      LikeNew s' := by
  obtain ⟨h', ho⟩ := hi.exists_onGroup hf g
  refine ⟨{ s with handle := h' }, by rw [ho]; rfl, fun hfree => ?_⟩
  exact PtrHandle.asConfigured_onGroup (hn ((PtrHandle.thisFree_onGroup ho).symm.trans hfree)) ho

/-- **One call** leaves the handle like a new one exactly if it meets the condition. -/
theorem next_likeNew_iff (hi : s.handle.Inv) (hn : LikeNew s) (op : LifeOp) :
    (∃ s', s.next junk (fuel + 1) op = some s' ∧ LikeNew s') ↔ KeepsNew s op := by
  cases op with
  | connect g ip port connects =>
    exact iff_of_true (likeNew_onGroup hi hn
      (fun _ hl => LibeventHandle.atRest_getConnectionId hl ip port connects) g) trivial
  | accept g ip sinPort =>
    exact iff_of_true (likeNew_onGroup hi hn
      (fun _ hl => LibeventHandle.atRest_connlistenerCb hl ip sinPort) g) trivial
  | free =>
    cases hf : s.handle.thisFree with
    | true =>
      refine iff_of_true ⟨s, ?_, hn⟩ fun h => ?_
      · rw [next, PtrHandle.freeHandle, if_pos hf]
        rfl
      · rw [hf] at h
        cases h
    | false =>
      rw [KeepsNew, forall_prop_of_true hf, ← hi.freeHandle_iff (hn hf) hf]
      constructor
      · rintro ⟨s', hs', -⟩
        obtain ⟨x, hx, -⟩ := Option.map_eq_some_iff.1 hs'
        exact ⟨x, hx⟩
      · rintro ⟨x, hx⟩
        refine ⟨_, by rw [next, hx]; rfl, fun h => ?_⟩
        cases h.symm.trans (hi.of_freeHandle hx).2
  | init c =>
    cases hf : s.handle.thisFree with
    | false =>
      refine iff_of_true ⟨s, ?_, hn⟩ fun h => ?_
      · rw [next, PtrHandle.initHandle, if_neg (by simp [hf])]
      · rw [hf] at h
        cases h
    | true =>
      have hi' := hi.taken
      have hnext : s.next junk (fuel + 1) (.init c) =
          some ⟨PtrHandle.readConfig { s.handle with thisFree := false } c, c⟩ := by
        rw [next, PtrHandle.initHandle, if_pos hf]
      have hlike : LikeNew ⟨PtrHandle.readConfig { s.handle with thisFree := false } c, c⟩ ↔
          AsConfigured (PtrHandle.readConfig { s.handle with thisFree := false } c) c :=
        ⟨fun h => h (PtrHandle.thisFree_readConfig c), fun h _ => h⟩
      simp only [hnext, Option.some.injEq, exists_eq_left', hlike,
        hi'.asConfigured_readConfig_iff, Config.ip_ne_none_iff, Config.group_ne_none_iff,
        PtrHandle.lookup_ne_none_iff, PtrHandle.getIp_ne_none_iff, KeepsNew, hf, forall_const,
        List.forall_mem_map]

end Life

/-- **Re-initialised handles.** After every first part of a sequence of calls, all calls have
returned, the handle is like a new one, and no object is deleted twice or looked at once it is
deleted, exactly if every configuration that is taken has all names that the handle has by then, and
every group has a connection when the handle is freed. One round of a loop is as good as any
number. -/
theorem likeNew_iff (junk : Nat → Nat → Int32) (fuel : Nat) (ops : List LifeOp) :
    (∀ pre, pre <+: ops → ∃ s, (lifecycle junk (fuel + 1)).run pre = some s ∧ LikeNew s) ↔
      (lifecycle junk (fuel + 1)).Meets KeepsNew (lifecycle junk (fuel + 1)).init ops := by
  have hinv : ∀ s op s', (lifecycle junk (fuel + 1)).next s op = some s' →
      s.handle.Inv → s'.handle.Inv := fun _ _ _ h hi => Life.inv_next hi h
  apply System.forall_prefix_iff_meets hinv fun _ op hi hn => Life.next_likeNew_iff hi hn op
  · refine ⟨fun g p hg => ?_, fun g g' p hg => ?_, fun p group hp => ?_⟩
    · cases hg
    · cases hg
    · cases hp
  · intro hf
    cases hf

/-- A host and a group with a connection, freed, and the same names again. -/
example :
    let c : Config := ⟨[⟨[97], [49], true⟩], [⟨[103], [([97], 1)], [[116]]⟩]⟩
    (lifecycle (fun _ _ => 0) 1).Meets KeepsNew (lifecycle (fun _ _ => 0) 1).init
      [.init c, .accept [103] [50] 80, .free, .init c] := by
  decide

/-- The host `a` of the first configuration is missing in the second: `get_ip` still finds it. With
a group `g` that is missing in the second, `check_mess_type` looks at the deleted group, and
`free_handle` deletes it again. -/
theorem not_likeNew :
    ((lifecycle (fun _ _ => 0) 1).run [.init ⟨[⟨[97], [49], true⟩], []⟩, .free, .init {}]).map
        (fun s => (s.handle.thisFree, s.config.ip [97], s.handle.getIp [97])) =
      some (false, none, some [49]) ∧
    let ops : List LifeOp := [.init ⟨[⟨[97], [49], true⟩], [⟨[103], [([97], 1)], [[116]]⟩]⟩,
      .accept [103] [50] 80, .free, .init {}]
    ((lifecycle (fun _ _ => 0) 1).run ops).map
        (fun s => (s.handle.thisFree, s.handle.checkMessType [103] [116])) = some (false, none) ∧
      ((lifecycle (fun _ _ => 0) 1).run (ops ++ [.free])).isNone := by
  decide

end Net
