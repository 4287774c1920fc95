import GuacServer.Pool
import GuacServer.StateRuns

/-!
# Layers and buffers of a client

Layers and buffers take their indices from two pools. A buffer gives its pool
integer back; a layer gives back its index, which is one more than the integer
it was given. Buffers therefore stay distinct over all runs, and layers as
long as none of those integers is reused.
-/

namespace GuacServer.ClientLayers

open DecimalNumerals List NameAllocation Pool StateRuns

/-- guac_layer, as far as its index goes. -/
structure GuacLayer where
  /-- Positive for layers, negative for buffers, zero for the default layer. -/
  index : ℤ
  deriving DecidableEq

/-- The pools of guac_client. -/
structure GuacClient where
  /-- Where buffers take their indices. -/
  bufferPool : GuacPool
  /-- Where layers take their indices. -/
  layerPool : GuacPool
  deriving DecidableEq

/-- GUAC_BUFFER_POOL_INITIAL_SIZE. -/
def guacBufferPoolInitialSize : ℤ := 1024

/-- The pools of a client as guac_client_alloc makes them. -/
def guacClientAlloc : GuacClient :=
  ⟨guacPoolAlloc guacBufferPoolInitialSize,guacPoolAlloc guacBufferPoolInitialSize⟩

/-- guac_client_alloc_layer. -/
def guacClientAllocLayer (client : GuacClient) : GuacLayer×GuacClient :=
  (⟨wrap32 ((guacPoolNextInt client.layerPool).1+1)⟩,
    { client with layerPool := (guacPoolNextInt client.layerPool).2 })

/-- guac_client_alloc_buffer. -/
def guacClientAllocBuffer (client : GuacClient) : GuacLayer×GuacClient :=
  (⟨wrap32 (wrap32 (-(guacPoolNextInt client.bufferPool).1)-1)⟩,
    { client with bufferPool := (guacPoolNextInt client.bufferPool).2 })

/-- guac_client_free_buffer. -/
def guacClientFreeBuffer (layer : GuacLayer) (client : GuacClient) : GuacClient :=
  { client with
    bufferPool := guacPoolFreeInt (wrap32 (wrap32 (-layer.index)-1)) client.bufferPool }

/-- guac_client_free_layer. -/
def guacClientFreeLayer (layer : GuacLayer) (client : GuacClient) : GuacClient :=
  { client with layerPool := guacPoolFreeInt layer.index client.layerPool }

/-- A client with the layers and the buffers that are allocated. -/
structure LayerSession where
  client : GuacClient
  /-- The layers allocated and not freed. -/
  layers : List GuacLayer
  /-- The buffers allocated and not freed. -/
  buffers : List GuacLayer
  deriving DecidableEq

/-- A fresh client. -/
def freshSession : LayerSession := ⟨guacClientAlloc,[],[]⟩

/-- Calls on layers and buffers. -/
inductive LayerCall
  /-- guac_client_alloc_layer. -/
  | allocLayer
  /-- guac_client_free_layer. -/
  | freeLayer (layer : GuacLayer)
  /-- guac_client_alloc_buffer. -/
  | allocBuffer
  /-- guac_client_free_buffer. -/
  | freeBuffer (layer : GuacLayer)
  deriving DecidableEq

/-- One call; only what is allocated is freed. -/
def layerStep : LayerCall→LayerSession→Option LayerSession
  | .allocLayer, session =>
    let alloc := guacClientAllocLayer session.client
    some { session with client := alloc.2, layers := alloc.1::session.layers }
  | .freeLayer layer, session =>
    if layer∈session.layers then
      some { session with
        client := guacClientFreeLayer layer session.client
        layers := session.layers.erase layer }
    else none
  | .allocBuffer, session =>
    let alloc := guacClientAllocBuffer session.client
    some { session with client := alloc.2, buffers := alloc.1::session.buffers }
  | .freeBuffer layer, session =>
    if layer∈session.buffers then
      some { session with
        client := guacClientFreeBuffer layer session.client
        buffers := session.buffers.erase layer }
    else none

/-- The condition of a call: a layer does not reuse an integer, and new
integers can be counted. -/
def LayerCall.Safe : LayerCall→LayerSession→Prop
  | .allocLayer, session =>
    ¬session.client.layerPool.Recycles ∧ session.client.layerPool.CanCount
  | .allocBuffer, session =>
    session.client.bufferPool.Recycles ∨ session.client.bufferPool.CanCount
  | .freeLayer _, _ => True
  | .freeBuffer _, _ => True

instance (call : LayerCall) (session : LayerSession) : Decidable (call.Safe session) :=
  match call with
  | .allocLayer => inferInstanceAs (Decidable (_ ∧ _))
  | .allocBuffer => inferInstanceAs (Decidable (_ ∨ _))
  | .freeLayer _ => inferInstanceAs (Decidable True)
  | .freeBuffer _ => inferInstanceAs (Decidable True)

/-- The layer pool accounts for the indices of layers that were all new. -/
structure LayersCounted (pool : GuacPool) (live : List ℤ) : Prop where
  nonneg : 0≤pool.nextValue
  counter : pool.nextValue<2^31
  nodup : live.Nodup
  /-- Every index was counted. -/
  counted : ∀ index∈live, 1 ≤ index ∧ index≤pool.nextValue

/-- The layer pool as an allocator of indices, with room for new ones only. -/
def layerAllocator : Allocator GuacPool ℤ where
  next pool := (wrap32 ((guacPoolNextInt pool).1+1),(guacPoolNextInt pool).2)
  release := guacPoolFreeInt
  Room pool := ¬pool.Recycles ∧ pool.CanCount
  Holds := LayersCounted
  nodup h := h.nodup
  holds_next := by
    rintro pool live ⟨hnonneg,hcounter,hnodup,hcounted⟩ ⟨hfresh,hcount⟩
    unfold GuacPool.CanCount at hcount
    have hwrap : wrap32 (pool.nextValue+1)=pool.nextValue+1 := wrap32_of_range (by omega) (by omega)
    rw [guacPoolNextInt_fresh hfresh,hwrap]
    refine ⟨by dsimp only; omega,by dsimp only; omega,?_,?_⟩
    · refine nodup_cons.mpr ⟨fun hmem => ?_,hnodup⟩
      have hself := hcounted _ hmem
      omega
    · intro index hindex
      dsimp only
      rcases mem_cons.mp hindex with rfl | hindex
      · omega
      · have hbounds := hcounted index hindex
        omega
  holds_release := fun h _ => ⟨h.nonneg,h.counter,h.nodup.erase _,
    fun index hindex => h.counted index (mem_of_mem_erase hindex)⟩

/-- A pool integer is negated and shifted for a buffer, and back. -/
theorem bufferIndex_undone {value : ℤ} (h₀ : 0≤value) (h₁ : value<2^31) :
    wrap32 (wrap32 (-value)-1) = -value-1 ∧
      wrap32 (wrap32 (-wrap32 (wrap32 (-value)-1))-1)=value := by
  have hindex : wrap32 (wrap32 (-value)-1) = -value-1 := by
    rw [wrap32_of_range (x := -value) (by omega) (by omega),wrap32_of_range (by omega) (by omega)]
  refine ⟨hindex,?_⟩
  by_cases hlast : value=2^31-1
  · subst hlast
    decide
  · rw [hindex,wrap32_of_range (x := -(-value-1)) (by omega) (by omega),
      wrap32_of_range (by omega) (by omega)]
    omega

/-- The buffer pool as an allocator of indices. -/
def bufferAllocator : Allocator GuacPool ℤ :=
  poolAllocator.rename (fun value => wrap32 (wrap32 (-value)-1))
    (fun index => wrap32 (wrap32 (-index)-1)) (by
      intro pool live h value hvalue
      obtain ⟨h₀,h₁⟩ := h.counted value (mem_append_left _ hvalue)
      exact (bufferIndex_undone h₀ (by have hcounter := h.counter; omega)).2)

/-- Live buffers have negative indices. -/
theorem bufferAllocator_negative {pool : GuacPool} {live : List ℤ}
    (h : bufferAllocator.Holds pool live) : ∀ index∈live, index ≤ -1 := by
  obtain ⟨values,hvalues,rfl⟩ := h
  intro index hindex
  obtain ⟨value,hvalue,rfl⟩ := mem_map.mp hindex
  obtain ⟨h₀,h₁⟩ := hvalues.counted value (mem_append_left _ hvalue)
  have hcounter := hvalues.counter
  rw [(bufferIndex_undone h₀ (by omega)).1]
  omega

/-- Both pools account for what is allocated. -/
structure SessionValid (session : LayerSession) : Prop where
  layers : layerAllocator.Holds session.client.layerPool (session.layers.map GuacLayer.index)
  buffers : bufferAllocator.Holds session.client.bufferPool (session.buffers.map GuacLayer.index)

/-- A fresh client has nothing to account for. -/
theorem freshSession_valid : SessionValid freshSession :=
  ⟨⟨Int.le_refl 0,by decide,nodup_nil,by simp [freshSession]⟩,[],guacPoolAlloc_accounts _,rfl⟩

/-- Indices are removed with their layers. -/
theorem map_index_erase (layers : List GuacLayer) (layer : GuacLayer) :
    (layers.erase layer).map GuacLayer.index=(layers.map GuacLayer.index).erase layer.index :=
  map_erase (fun a b h => by cases a; cases b; cases h; rfl) layers

/-- Every call that meets its condition keeps both pools right. -/
theorem layerStep_valid {call : LayerCall} {session session' : LayerSession}
    (h : SessionValid session) (hsafe : call.Safe session)
    (hstep : layerStep call session=some session') : SessionValid session' := by
  obtain ⟨hlayers,hbuffers⟩ := h
  cases call with
  | allocLayer =>
    cases hstep
    exact ⟨layerAllocator.holds_next hlayers hsafe,hbuffers⟩
  | allocBuffer =>
    cases hstep
    exact ⟨hlayers,bufferAllocator.holds_next hbuffers hsafe⟩
  | freeLayer layer =>
    rw [layerStep] at hstep
    split at hstep
    · next hmem =>
      cases hstep
      refine ⟨?_,hbuffers⟩
      dsimp only
      rw [map_index_erase]
      exact layerAllocator.holds_release hlayers (mem_map_of_mem hmem)
    · cases hstep
  | freeBuffer layer =>
    rw [layerStep] at hstep
    split at hstep
    · next hmem =>
      cases hstep
      refine ⟨hlayers,?_⟩
      dsimp only
      rw [map_index_erase]
      exact bufferAllocator.holds_release hbuffers (mem_map_of_mem hmem)
    · cases hstep

/-- The indices of layers are distinct and positive, those of buffers distinct
and negative. -/
structure IndicesDistinct (session : LayerSession) : Prop where
  layers_nodup : (session.layers.map GuacLayer.index).Nodup
  /-- No layer has the index of the default layer or of a buffer. -/
  layers_pos : ∀ layer∈session.layers, 1≤layer.index
  buffers_nodup : (session.buffers.map GuacLayer.index).Nodup
  /-- No buffer has the index of a layer. -/
  buffers_neg : ∀ layer∈session.buffers, layer.index ≤ -1

/-- In every run from a fresh client in which no layer reuses an integer of
its pool and no counter overflows, indices are distinct. -/
theorem guacClientLayers_distinct {calls : List LayerCall} {session : LayerSession}
    (hsafe : Along layerStep LayerCall.Safe calls freshSession)
    (hrun : run layerStep calls freshSession=some session) : IndicesDistinct session := by
  obtain ⟨hlayers,hbuffers⟩ :=
    run_invariant (fun h => layerStep_valid h) freshSession_valid hsafe hrun
  exact ⟨layerAllocator.nodup hlayers,
    fun layer hlayer => (hlayers.counted _ (mem_map_of_mem hlayer)).1,
    bufferAllocator.nodup hbuffers,
    fun layer hlayer => bufferAllocator_negative hbuffers _ (mem_map_of_mem hlayer)⟩

/-- Two layers, one of which is freed, and a buffer. -/
theorem guacClientLayers_distinct_three : IndicesDistinct
      { client := ⟨⟨1024,1,1,[]⟩,⟨1024,2,3,[1]⟩⟩
        layers := [⟨3⟩,⟨2⟩]
        buffers := [⟨-1⟩] } :=
  guacClientLayers_distinct (by decide : Along layerStep LayerCall.Safe
    [.allocLayer,.allocLayer,.freeLayer ⟨1⟩,.allocBuffer,.allocLayer] freshSession) (by decide)

/-- A client with that many layers, none of them freed. -/
def countedSession (n : ℕ) : LayerSession where
  client := ⟨guacPoolAlloc guacBufferPoolInitialSize,⟨guacBufferPoolInitialSize,n,n,[]⟩⟩
  layers := (List.range n).reverse.map fun i : ℕ => ⟨(i : ℤ)+1⟩
  buffers := []

/-- Layers allocated one after the other are counted. -/
theorem run_allocLayers {n : ℕ} (h : n<2^31) :
    run layerStep (List.replicate n .allocLayer) freshSession=some (countedSession n) := by
  induction n with
  | zero => rfl
  | succ n ih =>
    have hwrap : wrap32 (n+1)=((n+1 : ℕ) : ℤ) := by
      rw [wrap32_of_range (by omega) (by omega)]
      rfl
    rw [replicate_succ',run_append,ih (by omega),Option.bind_some,run,layerStep]
    simp only [run,countedSession,guacClientAllocLayer,guacPoolNextInt,hwrap,
      range_succ,reverse_append,reverse_singleton,singleton_append]
    rfl

/-- Every index up to the number of layers is live. -/
theorem mem_countedSession {i n : ℕ} (h : i<n) : (⟨i+1⟩ : GuacLayer)∈(countedSession n).layers := by
  refine mem_map.mpr ⟨i,?_,rfl⟩
  rwa [mem_reverse,mem_range]

/-- With at least 1024 layers, freeing the first and allocating another makes
one with the second index. -/
theorem run_reuse {n : ℕ} (hmin : 1024≤n) (hmax : n<2^31) :
    ∃ session, run layerStep (List.replicate n .allocLayer++[.freeLayer ⟨1⟩,.allocLayer])
        freshSession=some session ∧
      session.layers=⟨2⟩::(countedSession n).layers.erase ⟨1⟩ := by
  have hfirst : (⟨1⟩ : GuacLayer)∈(countedSession n).layers := mem_countedSession (by omega : 0<n)
  have hrecycles : (guacPoolFreeInt 1 (countedSession n).client.layerPool).Recycles := by
    refine ⟨cons_ne_nil _ _,?_⟩
    simp only [countedSession,guacPoolFreeInt,guacBufferPoolInitialSize]
    omega
  obtain ⟨value,ints,hints,hnext⟩ := guacPoolNextInt_recycled hrecycles
  cases hints
  rw [run_append,run_allocLayers hmax,Option.bind_some,run,layerStep,if_pos hfirst]
  refine ⟨_,rfl,?_⟩
  simp only [guacClientAllocLayer,guacClientFreeLayer,hnext]
  rfl

/-- Once the pool holds 1024 integers, a layer that is freed and allocated
again takes the index of another. -/
theorem guacClientLayers_duplicated :
    ∃ session, run layerStep (List.replicate 1024 .allocLayer++[.freeLayer ⟨1⟩,.allocLayer])
        freshSession=some session ∧
      ¬IndicesDistinct session := by
  obtain ⟨session,hrun,hlayers⟩ := run_reuse (Nat.le_refl 1024) (by decide)
  have hsecond : (⟨2⟩ : GuacLayer)∈(countedSession 1024).layers.erase ⟨1⟩ :=
    (mem_erase_of_ne (by decide)).mpr (mem_countedSession (by decide : 1<1024))
  refine ⟨session,hrun,fun h => ?_⟩
  have hnodup := h.layers_nodup.of_map
  rw [hlayers] at hnodup
  exact (nodup_cons.mp hnodup).1 hsecond

end GuacServer.ClientLayers
