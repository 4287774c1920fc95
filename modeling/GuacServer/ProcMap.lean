import Mathlib.Data.Fintype.Basic
import Mathlib.Order.Lattice.Nat
import GuacServer.BackReferences
import GuacServer.StateRuns

/-!
# The process map

guacd keeps its processes in hash buckets by connection ID. Every bucket is a
list whose elements refer back to the pointer that points to them, and elements
are allocated and freed with the calls. The calls answer as a finite map from
connection IDs to processes does.
-/

namespace GuacServer.ProcMap

open BackReferences List StateRuns

/-- A connection ID, as a string without its terminator. -/
structure ConnectionId where
  /-- The characters. -/
  bytes : List UInt8
  /-- None of them ends the string. -/
  noNul : 0 ∉ bytes
  deriving DecidableEq

/-- __guacd_client_hash, where char is signed. -/
def guacdClientHash (str : ConnectionId) : UInt32 :=
  str.bytes.foldl (fun hashValue c => hashValue*65599+c.toInt8.toInt32.toUInt32) 0

/-- GUACD_CLIENT_MAX_CONNECTIONS. -/
def guacdClientMaxConnections : ℕ := 65536

/-- GUACD_PROC_MAP_BUCKETS, the number of buckets of a map. -/
def guacdProcMapBuckets : ℕ := guacdClientMaxConnections*2

/-- The macro has no parentheses, so that the remainder is doubled. -/
theorem bucketIndex_lt (hash : UInt32) :
    hash.toNat%guacdClientMaxConnections*2<guacdProcMapBuckets :=
  Nat.mul_lt_mul_of_pos_right (Nat.mod_lt _ (by decide)) (by decide)

/-- __guacd_proc_find_bucket. -/
def guacdProcFindBucket (id : ConnectionId) : Fin guacdProcMapBuckets :=
  ⟨(guacdClientHash id).toNat%guacdClientMaxConnections*2,bucketIndex_lt (guacdClientHash id)⟩

variable {π : Type*}

/-- guacd_proc_map: its buckets, and the elements of all of them. The data of an element is
the address of a process. -/
abbrev GuacdProcMap (π : Type*) := Memory (Fin guacdProcMapBuckets) ℕ π

/-- guacd_proc_map_alloc. -/
def guacdProcMapAlloc : GuacdProcMap π := ⟨fun _ => none,∅⟩

/-- malloc: an address apart from those in use. -/
structure Malloc where
  /-- The address, given those in use. -/
  address : Finset ℕ→ℕ
  /-- It is not in use. -/
  fresh : ∀ used, address used ∉ used

/-- The address after the last one in use. -/
def mallocBehind : Malloc where
  address used := used.sup id+1
  fresh _ hmem := Nat.not_succ_le_self _ (Finset.le_sup (f := id) hmem)

/-- guac_common_list_add. -/
def guacCommonListAdd (malloc : Malloc) (map : GuacdProcMap π) (list : Fin guacdProcMapBuckets)
    (data : π) : Option (GuacdProcMap π) :=
  map.add list (malloc.address map.elements.keys) data

/-- guac_common_list_remove. -/
def guacCommonListRemove (map : GuacdProcMap π) (element : ℕ) : Option (GuacdProcMap π) :=
  map.remove element

/-- __guacd_proc_find: the element and its process. A loop through more elements than there
are does not end. -/
def guacdProcFind (connectionId : π → ConnectionId) (map : GuacdProcMap π)
    (bucket : Fin guacdProcMapBuckets) (id : ConnectionId) : Option (Option (ℕ×π)) :=
  map.find (fun proc => decide (connectionId proc=id)) (map.elements.keys.card+1) (map.head bucket)

/-- guacd_proc_map_add, with what it returns. -/
def guacdProcMapAdd (malloc : Malloc) (connectionId : π → ConnectionId) (map : GuacdProcMap π)
    (proc : π) : Option (ℤ×GuacdProcMap π) :=
  let identifier := connectionId proc
  let bucket := guacdProcFindBucket identifier
  match guacdProcFind connectionId map bucket identifier with
  | none => none
  | some none => (guacCommonListAdd malloc map bucket proc).map fun map => (0,map)
  | some (some _) => some (1,map)

/-- guacd_proc_map_retrieve. -/
def guacdProcMapRetrieve (connectionId : π → ConnectionId) (map : GuacdProcMap π)
    (id : ConnectionId) : Option (Option π) :=
  match guacdProcFind connectionId map (guacdProcFindBucket id) id with
  | none => none
  | some none => some none
  | some (some found) => some (some found.2)

/-- guacd_proc_map_remove. -/
def guacdProcMapRemove (connectionId : π → ConnectionId) (map : GuacdProcMap π)
    (id : ConnectionId) : Option (Option π×GuacdProcMap π) :=
  match guacdProcFind connectionId map (guacdProcFindBucket id) id with
  | none => none
  | some none => some (none,map)
  | some (some found) =>
    (guacCommonListRemove map found.1).map fun map => (some found.2,map)

/-- The calls. -/
inductive MapCall (π : Type*) where
  /-- guacd_proc_map_add. -/
  | add (proc : π)
  /-- guacd_proc_map_retrieve. -/
  | retrieve (id : ConnectionId)
  /-- guacd_proc_map_remove. -/
  | remove (id : ConnectionId)

/-- What a call returns. -/
inductive MapResult (π : Type*) where
  /-- Whether a process could be added. -/
  | status (value : ℤ)
  /-- A process, or NULL. -/
  | proc (value : Option π)

/-- A map and what its calls returned. -/
structure MapSession (π : Type*) where
  map : GuacdProcMap π
  /-- The results of all calls. -/
  results : List (MapResult π)

/-- One call. There is no next state if memory is accessed that is not allocated, or a loop
does not end. -/
def mapStep (malloc : Malloc) (connectionId : π → ConnectionId) :
    MapCall π→MapSession π→Option (MapSession π)
  | .add proc, session =>
    (guacdProcMapAdd malloc connectionId session.map proc).map fun (status,map) =>
      ⟨map,session.results++[.status status]⟩
  | .retrieve id, session =>
    (guacdProcMapRetrieve connectionId session.map id).map fun proc =>
      ⟨session.map,session.results++[.proc proc]⟩
  | .remove id, session =>
    (guacdProcMapRemove connectionId session.map id).map fun (proc,map) =>
      ⟨map,session.results++[.proc proc]⟩

/-- A finite map from connection IDs to processes, and what its operations answered. -/
structure Table (π : Type*) where
  /-- The process of a connection ID, if there is one. -/
  proc : ConnectionId→Option π
  /-- The answers. -/
  results : List (MapResult π)

/-- What a call means for the table. -/
def Table.call (connectionId : π → ConnectionId) (table : Table π) : MapCall π→Table π
  | .add proc =>
    match table.proc (connectionId proc) with
    | none => ⟨Function.update table.proc (connectionId proc) (some proc),
        table.results++[.status 0]⟩
    | some _ => ⟨table.proc,table.results++[.status 1]⟩
  | .retrieve id => ⟨table.proc,table.results++[.proc (table.proc id)]⟩
  | .remove id =>
    ⟨Function.update table.proc id none,table.results++[.proc (table.proc id)]⟩

/-- The table after a list of calls. -/
def tableAfter (connectionId : π → ConnectionId) (calls : List (MapCall π)) : Table π :=
  calls.foldl (Table.call connectionId) ⟨fun _ => none,[]⟩

section Calls

variable {connectionId : π → ConnectionId}

/-- What the buckets of a map hold, as a table. -/
structure Holds (connectionId : π → ConnectionId) (map : GuacdProcMap π)
    (lists : Fin guacdProcMapBuckets→List (ℕ×π)) (table : ConnectionId→Option π) : Prop where
  /-- Every bucket is a list that is linked in both directions. -/
  represents : Represents map lists
  /-- Every process is in the bucket of its connection ID. -/
  placed : ∀ bucket, ∀ x∈lists bucket, guacdProcFindBucket (connectionId x.2)=bucket
  /-- No bucket has a connection ID twice. -/
  unique : ∀ bucket, ((lists bucket).map fun x => connectionId x.2).Nodup
  /-- The table is what the buckets hold. -/
  table : ∀ id, table id=((lists (guacdProcFindBucket id)).find? fun x =>
    decide (connectionId x.2=id)).map Prod.snd

variable {map : GuacdProcMap π} {lists : Fin guacdProcMapBuckets→List (ℕ×π)}
  {table : ConnectionId→Option π}

/-- A search ends and finds the element of the connection ID. -/
theorem Holds.find (h : Holds connectionId map lists table) (id : ConnectionId) :
    guacdProcFind connectionId map (guacdProcFindBucket id) id=
      some ((lists (guacdProcFindBucket id)).find? fun x => decide (connectionId x.2=id)) :=
  (h.represents.chain _).find _ (Nat.lt_succ_of_le (h.represents.length_le _)) rfl

/-- A map without processes. -/
theorem holds_alloc : Holds connectionId guacdProcMapAlloc (fun _ => []) fun _ => none where
  represents := represents_empty
  placed _ _ hx := nomatch hx
  unique _ := nodup_nil
  table _ := rfl

section

variable (h : Holds connectionId map lists table)

include h

/-- The bucket of a connection ID is replaced, by a list in which only that ID is found as
something else. -/
theorem Holds.update {map' : GuacdProcMap π} {id : ConnectionId} {nodes : List (ℕ×π)}
    {value : Option π}
    (hrepresents : Represents map' (Function.update lists (guacdProcFindBucket id) nodes))
    (hplaced : ∀ x∈nodes, guacdProcFindBucket (connectionId x.2)=guacdProcFindBucket id)
    (hunique : (nodes.map fun x => connectionId x.2).Nodup)
    (hself : value=(nodes.find? fun x => decide (connectionId x.2=id)).map Prod.snd)
    (hothers : ∀ id', id' ≠ id→(nodes.find? fun x => decide (connectionId x.2=id'))=
      (lists (guacdProcFindBucket id)).find? fun x => decide (connectionId x.2=id')) :
    Holds connectionId map' (Function.update lists (guacdProcFindBucket id) nodes)
      (Function.update table id value) where
  represents := hrepresents
  placed bucket x hx := by
    by_cases heq : bucket=guacdProcFindBucket id
    · rw [heq,Function.update_self] at hx
      rw [heq]
      exact hplaced x hx
    · rw [Function.update_of_ne heq] at hx
      exact h.placed bucket x hx
  unique bucket := by
    by_cases heq : bucket=guacdProcFindBucket id
    · rw [heq,Function.update_self]
      exact hunique
    · rw [Function.update_of_ne heq]
      exact h.unique bucket
  table id' := by
    by_cases hid : id' = id
    · rw [hid,Function.update_self,Function.update_self]
      exact hself
    · rw [Function.update_of_ne hid,h.table]
      by_cases heq : guacdProcFindBucket id' = guacdProcFindBucket id
      · rw [heq,Function.update_self,hothers id' hid]
      · rw [Function.update_of_ne heq]

/-- A process whose connection ID is new is added. -/
theorem Holds.add (malloc : Malloc) {proc : π} (hnone : table (connectionId proc)=none) :
    ∃ map' lists', guacdProcMapAdd malloc connectionId map proc=some (0,map') ∧
      Holds connectionId map' lists' (Function.update table (connectionId proc) (some proc)) := by
  set bucket := guacdProcFindBucket (connectionId proc) with hbucket
  have hfind : (lists bucket).find? (fun x => decide (connectionId x.2=connectionId proc))=
      none := by
    have htable := h.table (connectionId proc)
    rw [hnone] at htable
    exact Option.map_eq_none_iff.mp htable.symm
  have hfound := h.find (connectionId proc)
  rw [←hbucket,hfind] at hfound
  have hfresh : map.elements.lookup (malloc.address map.elements.keys)=none :=
    Finmap.lookup_eq_none.mpr fun hmem => malloc.fresh _ (Finmap.mem_keys.mpr hmem)
  obtain ⟨map',hadd,hrepresents⟩ := h.represents.add bucket hfresh proc
  refine ⟨map',_,?_,h.update hrepresents (fun x hx => ?_) ?_ ?_ fun id hid => ?_⟩
  · simp only [guacdProcMapAdd,←hbucket,hfound,guacCommonListAdd,hadd,Option.map_some]
  · rcases mem_cons.mp hx with rfl | hx
    · rfl
    · exact h.placed _ x hx
  · rw [map_cons,nodup_cons]
    refine ⟨fun hmem => ?_,h.unique _⟩
    obtain ⟨x,hx,hid⟩ := mem_map.mp hmem
    exact List.find?_eq_none.mp hfind x hx (decide_eq_true hid)
  · simp only [List.find?_cons,decide_true,Option.map_some]
  · rw [List.find?_cons_of_neg]
    exact fun hdecide => hid (of_decide_eq_true hdecide).symm

/-- A process whose connection ID is in use is not added, and nothing changes. -/
theorem Holds.add_existing (malloc : Malloc) {proc other : π}
    (hsome : table (connectionId proc)=some other) :
    guacdProcMapAdd malloc connectionId map proc=some (1,map) := by
  rw [h.table,Option.map_eq_some_iff] at hsome
  obtain ⟨x,hx,-⟩ := hsome
  simp only [guacdProcMapAdd,h.find,hx]

/-- A call of guacd_proc_map_retrieve answers what the table holds. -/
theorem Holds.retrieve (id : ConnectionId) :
    guacdProcMapRetrieve connectionId map id=some (table id) := by
  rw [guacdProcMapRetrieve,h.find,h.table]
  cases (lists (guacdProcFindBucket id)).find? fun x => decide (connectionId x.2=id) with
  | none => rfl
  | some x => rfl

/-- A process is removed under its connection ID, and no other is. -/
theorem Holds.remove (id : ConnectionId) :
    ∃ map' lists', guacdProcMapRemove connectionId map id=some (table id,map') ∧
      Holds connectionId map' lists' (Function.update table id none) := by
  set bucket := guacdProcFindBucket id with hbucket
  have htable := h.table id
  have hfound := h.find id
  cases hfind : (lists bucket).find? fun x => decide (connectionId x.2=id) with
  | none =>
    rw [←hbucket,hfind,Option.map_none] at htable
    rw [←hbucket,hfind] at hfound
    refine ⟨map,lists,?_,?_⟩
    · simp only [guacdProcMapRemove,←hbucket,hfound,htable]
    · rw [Function.update_eq_self_iff.mpr htable.symm]
      exact h
  | some x =>
    rw [←hbucket,hfind,Option.map_some] at htable
    rw [←hbucket,hfind] at hfound
    obtain ⟨hid,front,back,hlist,hfront⟩ := List.find?_eq_some_iff_append.mp hfind
    have hid' : connectionId x.2=id := of_decide_eq_true hid
    have hunique := h.unique bucket
    rw [hlist,map_append,map_cons] at hunique
    obtain ⟨hfrontIds,hbackIds,hapart⟩ := nodup_append.mp hunique
    obtain ⟨hnotBack,hbackIds⟩ := nodup_cons.mp hbackIds
    obtain ⟨map',hremove,hrepresents⟩ := h.represents.remove hlist
    refine ⟨map',_,?_,h.update hrepresents (fun y hy => ?_) ?_ ?_ fun id' hne => ?_⟩
    · simp only [guacdProcMapRemove,←hbucket,hfound,guacCommonListRemove,hremove,htable,
        Option.map_some]
    · refine h.placed _ y ?_
      rw [hlist]
      rcases mem_append.mp hy with hy | hy
      · exact mem_append_left _ hy
      · exact mem_append_right _ (mem_cons_of_mem _ hy)
    · rw [map_append]
      exact nodup_append.mpr ⟨hfrontIds,hbackIds,
        fun y hy z hz => hapart y hy z (mem_cons_of_mem _ hz)⟩
    · refine (Option.map_eq_none_iff.mpr (List.find?_eq_none.mpr fun y hy hdecide => ?_)).symm
      have hy' := of_decide_eq_true hdecide
      rcases mem_append.mp hy with hy | hy
      · have hnot := hfront y hy
        rw [hdecide] at hnot
        exact absurd hnot (by decide)
      · exact hnotBack (mem_map.mpr ⟨y,hy,hy'.trans hid'.symm⟩)
    · have hother : ¬connectionId x.2=id' := fun hid => hne (hid.symm.trans hid')
      rw [←hbucket,hlist]
      simp only [List.find?_append,List.find?_cons,decide_eq_false hother]

end

/-- A call answers what the table answers, and the buckets hold the table after it. -/
theorem Holds.step {session : MapSession π} {table : Table π}
    (h : Holds connectionId session.map lists table.proc)
    (hresults : session.results=table.results) (malloc : Malloc) (call : MapCall π) :
    ∃ session' lists', mapStep malloc connectionId call session=some session' ∧
      Holds connectionId session'.map lists' (table.call connectionId call).proc ∧
      session'.results=(table.call connectionId call).results := by
  cases call with
  | add proc =>
    cases htable : table.proc (connectionId proc) with
    | none =>
      obtain ⟨map',lists',hadd,hholds⟩ := h.add malloc htable
      simp only [mapStep,hadd,Option.map_some,Table.call,htable]
      exact ⟨_,lists',rfl,hholds,by rw [hresults]⟩
    | some other =>
      simp only [mapStep,h.add_existing malloc htable,Option.map_some,Table.call,htable]
      exact ⟨_,lists,rfl,h,by rw [hresults]⟩
  | retrieve id =>
    simp only [mapStep,h.retrieve,Option.map_some,Table.call]
    exact ⟨_,lists,rfl,h,by rw [hresults]⟩
  | remove id =>
    obtain ⟨map',lists',hremove,hholds⟩ := h.remove id
    simp only [mapStep,hremove,Option.map_some,Table.call]
    exact ⟨_,lists',rfl,hholds,by rw [hresults]⟩

/-- So does any list of calls. -/
theorem Holds.run {session : MapSession π} {table : Table π}
    (h : Holds connectionId session.map lists table.proc)
    (hresults : session.results=table.results) (malloc : Malloc) (calls : List (MapCall π)) :
    ∃ session' lists', run (mapStep malloc connectionId) calls session=some session' ∧
      Holds connectionId session'.map lists' (calls.foldl (Table.call connectionId) table).proc ∧
      session'.results=(calls.foldl (Table.call connectionId) table).results := by
  induction calls generalizing session table lists with
  | nil => exact ⟨session,lists,rfl,h,hresults⟩
  | cons call calls ih =>
    obtain ⟨next,lists',hstep,hholds,hresults'⟩ := h.step hresults malloc call
    obtain ⟨session',lists'',hrun,hholds',hresults''⟩ := ih hholds hresults'
    refine ⟨session',lists'',?_,hholds',hresults''⟩
    rw [StateRuns.run,hstep]
    exact hrun

end Calls

/-- Any calls answer what the operations of a finite map from connection IDs to processes
answer. A process fails to be added exactly while another has its connection ID, and then
nothing changes; and every bucket stays a list without cycles, in which each element refers
back to the pointer that points to it. -/
theorem procMap_finiteMap (malloc : Malloc) (connectionId : π → ConnectionId)
    (calls : List (MapCall π)) :
    ∃ session, run (mapStep malloc connectionId) calls ⟨guacdProcMapAlloc,[]⟩=some session ∧
      session.results=(tableAfter connectionId calls).results ∧
      (∀ proc, (tableAfter connectionId calls).proc (connectionId proc)≠none ↔
        guacdProcMapAdd malloc connectionId session.map proc=some (1,session.map)) ∧
      ∀ bucket, ∃ elements, Chain session.map (.head bucket) elements ∧
        (elements.map Prod.fst).Nodup := by
  have hstart : Holds connectionId (⟨guacdProcMapAlloc,[]⟩ : MapSession π).map (fun _ => [])
      (⟨fun _ => none,[]⟩ : Table π).proc := holds_alloc
  obtain ⟨session,lists,hrun,hholds,hresults⟩ := hstart.run rfl malloc calls
  refine ⟨session,hrun,hresults,fun proc => ⟨fun hsome => ?_,fun hfails hnone => ?_⟩,
    fun bucket => ⟨lists bucket,hholds.represents.chain bucket,hholds.represents.nodup bucket⟩⟩
  · obtain ⟨other,hother⟩ := Option.ne_none_iff_exists'.mp hsome
    exact hholds.add_existing malloc hother
  · obtain ⟨map',lists',hadd,-⟩ := hholds.add malloc hnone
    rw [hadd,Option.some.injEq,Prod.mk.injEq] at hfails
    exact absurd hfails.1 (by decide)

/-- A connection ID. -/
def firstId : ConnectionId := ⟨[65,111],by decide⟩

/-- Another one with the same bucket. -/
def secondId : ConnectionId := ⟨[66,48],by decide⟩

/-- Two processes whose connection IDs collide. The second is refused when it is added again,
and found when the first, which is behind it in the bucket, has been removed. -/
theorem procMap_finiteMap_collision : guacdProcFindBucket firstId=guacdProcFindBucket secondId ∧
      ∃ session, run (mapStep mallocBehind id)
          [.add firstId,.add secondId,.add secondId,.retrieve firstId,.remove firstId,
            .retrieve firstId,.retrieve secondId] ⟨guacdProcMapAlloc,[]⟩=some session ∧
        session.results=[.status 0,.status 0,.status 1,.proc (some firstId),
          .proc (some firstId),.proc none,.proc (some secondId)] := by
  obtain ⟨session,hrun,hresults,-⟩ := procMap_finiteMap mallocBehind id
    [.add firstId,.add secondId,.add secondId,.retrieve firstId,.remove firstId,.retrieve firstId,
      .retrieve secondId]
  exact ⟨by decide,session,hrun,hresults.trans rfl⟩

end GuacServer.ProcMap
