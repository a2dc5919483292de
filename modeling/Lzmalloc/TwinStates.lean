import Lzmalloc.ClientBytes
import Lzmalloc.ConcreteView
import Lzmalloc.MemoryBlind

/-!
# States with the same links

The allocator keeps its links inside the objects it manages, next to the bytes
of its clients and masked with a secret. Two states are twins when they are
alike and every link that the allocator may still load reads the same: links of
free lists as their owner decodes them, links of batches and mailboxes as they
are stored. The functions of a thread heap take twins to twins and return the
same pointer to both.
-/

namespace Lzmalloc.TwinStates

open SizeClasses HeapState VirtualMemoryManager ByteMemory Engines ThreadHeap PublicApi PointerChain
open DoublyLinked HeapInvariant InvariantFacts SlabBlocks ChunkRoles ClientView SlabLifecycle
open SpanLifecycle SlabAllocation RemoteFree ThreadFrames FreeFootprint ClientBytes ConcreteView
open MemoryBlind

set_option autoImplicit false

structure Twin (g : Ghost) (s t : State) : Prop where
  alike : Alike s t
  free : ∀ ptr, g.node ptr = .free → freeLink t.secret t.mem ptr = freeLink s.secret s.mem ptr
  flying : ∀ ptr, (g.node ptr).InFlight → linkAt t.mem ptr = linkAt s.mem ptr

variable {mode : Mode} {s t after later : State} {g last : Ghost} {tlh classIdx chunk ptr : Nat}

theorem twin_fewer (twin : Twin g s t) (free : ∀ ptr, last.node ptr = .free → g.node ptr = .free)
    (flying : ∀ ptr, (last.node ptr).InFlight → (g.node ptr).InFlight) : Twin last s t :=
  ⟨twin.alike, fun ptr there => twin.free ptr (free ptr there),
    fun ptr there => twin.flying ptr (flying ptr there)⟩

theorem twin_same (twin : Twin g s t) (alike : Alike after later) (mem : after.mem = s.mem)
    (secret : after.secret = s.secret) (laterMem : later.mem = t.mem)
    (laterSecret : later.secret = t.secret) : Twin g after later := by
  constructor
  · exact alike
  · rw [mem, secret, laterMem, laterSecret]
    exact twin.free
  · rw [mem, laterMem]
    exact twin.flying

/-- The second state is described by the same ghost. -/
theorem core_twin (core : Core mode s g) (twin : Twin g s t) : Core mode t g := by
  have free := twin.free
  have flying := twin.flying
  obtain ⟨mem, secret, rfl⟩ := twin.alike
  refine { core with slabs := ?_, mail := ?_ }
  · intro chunk tlh classIdx kind
    refine slab_ok_congr (core.slabs chunk tlh classIdx kind) (fun _ _ => rfl) ?_
    intro block _ there
    exact free block there
  · exact mail_inv_congr core.mail (fun _ _ => Iff.rfl) (fun _ _ => Iff.rfl) (fun _ _ => Iff.rfl)
      flying

/-! ## Free lists that nobody pushed to -/

theorem free_in_slab (core : Core mode s g) (free : g.node ptr = .free) :
    ∃ tlh classIdx, g.kind (chunkBase ptr) = .slab tlh classIdx := by
  have holds := core.objects.scope ptr (by simp [free])
  cases kind : g.kind (chunkBase ptr) with
  | slab tlh classIdx => exact ⟨tlh, classIdx, rfl⟩
  | span tlh => exact absurd free ((core.spans _ tlh kind).notFree ptr rfl)
  | direct header =>
      rcases core.objects.direct.places ptr header kind with there | there | there
      · rw [there] at free
        cases free
      · rw [there] at free
        cases free
      · rw [there] at free
        cases free
  | unused => simp [kind, BlockKind.HoldsObjects] at holds
  | idle place => simp [kind, BlockKind.HoldsObjects] at holds
  | loose => simp [kind, BlockKind.HoldsObjects] at holds

theorem slab_kind_of_bins (core : Core mode s g) (laterCore : Core mode after last)
    (bins : after.bins = s.bins) (links : after.slabLinks = s.slabLinks)
    (isSlab : last.kind chunk = .slab tlh classIdx) : g.kind chunk = .slab tlh classIdx := by
  have member : InBin last.kind last.bin tlh classIdx (last.bin chunk) (chunk + 64) :=
    ⟨chunk, rfl, isSlab, rfl⟩
  have before : InBin g.kind g.bin tlh classIdx (last.bin chunk) (chunk + 64) := by
    by_cases current : last.bin chunk = .inCurrent
    · rw [current] at member ⊢
      have position := (laterCore.current tlh classIdx).current (chunk + 64)
      rw [bins] at position
      exact ((core.current tlh classIdx).current (chunk + 64)).mpr (position.mp member)
    · have list := laterCore.lists tlh classIdx (last.bin chunk) current
      rw [bins, links] at list
      obtain ⟨count, chain⟩ := doubly_enumerates list
      obtain ⟨length, same⟩ := doubly_enumerates (core.lists tlh classIdx (last.bin chunk) current)
      exact (enumerates_on_chain same).mp ((enumerates_on_chain chain).mpr member)
  obtain ⟨base, position, kind, _⟩ := before
  obtain rfl : chunk = base := Nat.add_right_cancel position
  exact kind

/-- The free list of a slab that starts where one of its earlier lists started,
or one block further on. -/
def ShorterList (s : State) (head chunk : Nat) : Prop :=
  head = (s.slab (chunk + 64)).freeListHead ∨
    (s.slab (chunk + 64)).freeListHead ≠ 0 ∧
      head = freeLink s.secret s.mem (s.slab (chunk + 64)).freeListHead

theorem shorter_list_free (core : Core mode s g) (isSlab : g.kind chunk = .slab tlh classIdx)
    {head : Nat} (shorter : ShorterList s head chunk)
    (visited : OnChain (freeLink s.secret s.mem) head ptr) : g.node ptr = .free := by
  have list := (core.slabs chunk tlh classIdx isSlab).freeList
  obtain ⟨nodes, segment, inside⟩ := visited
  cases shorter with
  | inl same =>
      rw [same] at segment
      exact ((enumerates_on_chain list).mp ⟨nodes, segment, inside⟩).2
  | inr next =>
      obtain ⟨nonnull, popped⟩ := next
      rw [popped] at segment
      have longer : OnChain (freeLink s.secret s.mem) (s.slab (chunk + 64)).freeListHead ptr :=
        ⟨(s.slab (chunk + 64)).freeListHead :: nodes, ⟨rfl, nonnull, segment⟩,
          List.mem_cons_of_mem _ inside⟩
      exact ((enumerates_on_chain list).mp longer).2

def ListsShrink (s : State) (g : Ghost) (after : State) (last : Ghost) : Prop :=
  ∀ chunk tlh classIdx, last.kind chunk = .slab tlh classIdx →
    (after.slab (chunk + 64)).freeListHead = 0 ∨
      (∃ heap size, g.kind chunk = .slab heap size) ∧
        ShorterList s (after.slab (chunk + 64)).freeListHead chunk

def SameLinks (g last : Ghost) (mem later : Memory) : Prop :=
  ∀ ptr, last.node ptr ≠ .none → (g.kind (chunkBase ptr)).HoldsObjects →
    linkAt later ptr = linkAt mem ptr

theorem lists_shrink_free (core : Core mode s g) (laterCore : Core mode after last)
    (lists : ListsShrink s g after last) (links : SameLinks g last s.mem after.mem)
    (secret : after.secret = s.secret) (free : last.node ptr = .free) : g.node ptr = .free := by
  obtain ⟨tlh, classIdx, isSlab⟩ := free_in_slab laterCore free
  obtain ⟨count, list⟩ : ∃ count, Enumerates (freeLink s.secret after.mem)
      (after.slab (chunkBase ptr + 64)).freeListHead
      (fun block => chunkBase block = chunkBase ptr ∧ last.node block = .free) count := by
    rw [← secret]
    exact ⟨_, (laterCore.slabs _ tlh classIdx isSlab).freeList⟩
  cases lists _ tlh classIdx isSlab with
  | inl empty =>
      rw [empty] at list
      exact absurd ⟨rfl, free⟩ ((enumerates_null list).2 ptr)
  | inr shrunk =>
      obtain ⟨⟨heap, size, wasSlab⟩, shorter⟩ := shrunk
      apply shorter_list_free core wasSlab shorter
      have kept : Enumerates (freeLink s.secret s.mem)
          (after.slab (chunkBase ptr + 64)).freeListHead
          (fun block => chunkBase block = chunkBase ptr ∧ last.node block = .free) count := by
        refine enumerates_congr list ?_ fun _ => Iff.rfl
        rintro block ⟨inside, there⟩
        have same : linkAt after.mem block = linkAt s.mem block := by
          apply links block (by simp [there])
          rw [inside, wasSlab]
          trivial
        exact (free_link_congr s.secret same).symm
      exact (enumerates_on_chain kept).mpr ⟨rfl, free⟩

/-- The frame rule for twins: no list grows, nothing new is in flight, and the
link words stay in both states. -/
theorem twin_frame (core : Core mode s g) (laterCore : Core mode after last) (twin : Twin g s t)
    (alike : Alike after later) (lists : ListsShrink s g after last)
    (flying : ∀ ptr, (last.node ptr).InFlight → (g.node ptr).InFlight)
    (links : SameLinks g last s.mem after.mem) (laterLinks : SameLinks g last t.mem later.mem)
    (secret : after.secret = s.secret) (laterSecret : later.secret = t.secret) :
    Twin last after later := by
  constructor
  · exact alike
  · intro ptr free
    have before := lists_shrink_free core laterCore lists links secret free
    have holds := core.objects.scope ptr (by simp [before])
    have present : last.node ptr ≠ .none := by simp [free]
    rw [secret, laterSecret, free_link_congr _ (links ptr present holds),
      free_link_congr _ (laterLinks ptr present holds)]
    exact twin.free ptr before
  · intro ptr there
    have before := flying ptr there
    have used : g.node ptr ≠ .none := by
      intro none
      simp [none, NodePlace.InFlight] at before
    have present : last.node ptr ≠ .none := by
      intro none
      simp [none, NodePlace.InFlight] at there
    have holds := core.objects.scope ptr used
    rw [links ptr present holds, laterLinks ptr present holds]
    exact twin.flying ptr before

/-! ## Link words that stay -/

theorem same_links_refl (g last : Ghost) (mem : Memory) : SameLinks g last mem mem :=
  fun _ _ _ => rfl

theorem same_links_deflated {mem other : Memory} (laterCore : Core mode after last)
    (bytes : ∀ byte, other byte = mem byte ∨ Deflated after byte) : SameLinks g last mem other := by
  intro ptr present _
  obtain ⟨_, inside⟩ := core_node_cell laterCore present
  obtain ⟨aligned, _, _⟩ := core_placed laterCore present
  have base := chunk_base_le ptr
  apply load_congr
  intro byte lower upper
  apply (bytes byte).resolve_right
  intro deflated
  apply deflated_idle laterCore deflated
  rw [chunk_base_eq aligned (by omega) (by omega)]
  exact laterCore.objects.scope ptr present

theorem same_links_mapped {mem other : Memory} (core : Core mode s g)
    (laterCore : Core mode after last)
    (kept : ∀ address, Mapped s.regions address → other address = mem address) :
    SameLinks g last mem other := by
  intro ptr present holds
  obtain ⟨_, inside⟩ := core_node_cell laterCore present
  obtain ⟨aligned, _, _⟩ := core_placed laterCore present
  have base := chunk_base_le ptr
  apply load_congr
  intro byte lower upper
  apply kept
  apply holder_mapped core
  rwa [chunk_base_eq aligned (by omega) (by omega)]

theorem same_links_spares {mem other : Memory} (laterCore : Core mode after last)
    (spares : Spares g.kind mem other) : SameLinks g last mem other := by
  intro ptr present holds
  obtain ⟨_, inside⟩ := core_node_cell laterCore present
  obtain ⟨aligned, _, _⟩ := core_placed laterCore present
  have base := chunk_base_le ptr
  apply load_congr
  intro byte lower upper
  apply spares
  rwa [chunk_base_eq aligned (by omega) (by omega)]

/-- The frame rule for operations that write no link and may give up a chunk. -/
theorem twin_footprint (core : Core mode s g) (laterCore : Core mode after last)
    (twin : Twin g s t) (alike : Alike after later) (lists : ListsShrink s g after last)
    (flying : ∀ ptr, (last.node ptr).InFlight → (g.node ptr).InFlight)
    (footprint : Footprint (fun _ => False) s after)
    (laterFootprint : Footprint (fun _ => False) t later) (secret : after.secret = s.secret)
    (laterSecret : later.secret = t.secret) : Twin last after later := by
  apply twin_frame core laterCore twin alike lists flying _ _ secret laterSecret
  · apply same_links_deflated laterCore
    intro byte
    rcases footprint.bytes byte with same | ⟨_, never, _⟩ | deflated
    · exact Or.inl same
    · exact never.elim
    · exact Or.inr deflated
  · apply same_links_deflated laterCore
    intro byte
    rcases laterFootprint.bytes byte with same | ⟨_, never, _⟩ | deflated
    · exact Or.inl same
    · exact never.elim
    · rw [Deflated, alike_vmm_eq alike] at deflated
      exact Or.inr deflated

/-- The frame rule for operations that write into new mappings only. -/
theorem twin_keeps (core : Core mode s g) (laterCore : Core mode after last) (twin : Twin g s t)
    (alike : Alike after later) (lists : ListsShrink s g after last)
    (flying : ∀ ptr, (last.node ptr).InFlight → (g.node ptr).InFlight)
    (keeps : KeepsMapped s after) (laterKeeps : KeepsMapped t later)
    (secret : after.secret = s.secret) (laterSecret : later.secret = t.secret) :
    Twin last after later := by
  have regions : t.regions = s.regions := by
    obtain ⟨mem, key, rfl⟩ := twin.alike
    rfl
  apply twin_frame core laterCore twin alike lists flying _ _ secret laterSecret
  · exact same_links_mapped core laterCore keeps.mem
  · apply same_links_mapped core laterCore
    rw [← regions]
    exact laterKeeps.mem

/-! ## Slab descriptors that stay -/

structure SameSlabs (s after : State) : Prop where
  slab : after.slab = s.slab
  bins : after.bins = s.bins
  links : after.slabLinks = s.slabLinks

theorem same_slabs_refl (s : State) : SameSlabs s s := ⟨rfl, rfl, rfl⟩

theorem same_slabs_trans {middle : State} (first : SameSlabs s middle)
    (second : SameSlabs middle after) : SameSlabs s after :=
  ⟨second.slab.trans first.slab, second.bins.trans first.bins, second.links.trans first.links⟩

theorem lists_shrink_same (core : Core mode s g) (laterCore : Core mode after last)
    (same : SameSlabs s after) : ListsShrink s g after last := by
  intro chunk tlh classIdx isSlab
  right
  constructor
  · exact ⟨tlh, classIdx, slab_kind_of_bins core laterCore same.bins same.links isSlab⟩
  · left
    rw [same.slab]

theorem rtree_set_slabs (s : State) (chunkAddr metadata : Nat) :
    SameSlabs s (lzRtreeSet s chunkAddr metadata) := by
  rw [RadixTree.lz_rtree_set_eq]
  exact ⟨rfl, rfl, rfl⟩

theorem only_manager_slabs (only : ChunkTransfer.OnlyManager s after) : SameSlabs s after := by
  rw [only]
  exact ⟨rfl, rfl, rfl⟩

theorem vmm_free_slabs (s : State) (chunk : Nat) : SameSlabs s (lzVmmFreeChunk s chunk) := by
  unfold lzVmmFreeChunk
  simp only
  split
  · exact same_slabs_refl s
  · split
    · exact ⟨rfl, rfl, rfl⟩
    · exact ⟨rfl, rfl, rfl⟩

theorem account_free_slabs (s : State) (tlh bytes : Nat) :
    SameSlabs s (accountFree s tlh bytes) := by
  rw [account_free_eq]
  exact ⟨rfl, rfl, rfl⟩

theorem destroy_span_slabs (s : State) (tlh chunk : Nat) :
    SameSlabs s (destroySpan s tlh chunk) := by
  unfold destroySpan
  simp only
  apply same_slabs_trans _ (vmm_free_slabs _ chunk)
  apply same_slabs_trans _ (rtree_set_slabs _ chunk 0)
  exact ⟨rfl, rfl, rfl⟩

theorem span_free_slabs (s : State) (tlh chunk ptr : Nat) :
    SameSlabs s (lzSpanFreeLocal s tlh chunk ptr) := by
  unfold lzSpanFreeLocal
  simp only
  split
  · exact same_slabs_refl s
  split
  · exact same_slabs_refl s
  · generalize (ptr - chunk) / lzPageSize % 2 ^ 32 = startPage
    have counted := same_slabs_trans
      (⟨rfl, rfl, rfl⟩ : SameSlabs s (releasePages s (chunk + lzCacheLineSize) startPage
        ((s.span (chunk + lzCacheLineSize)).allocSizePages startPage)))
      (account_free_slabs _ tlh
        ((s.span (chunk + lzCacheLineSize)).allocSizePages startPage * lzPageSize % 2 ^ 32))
    split
    · exact same_slabs_trans counted (destroy_span_slabs _ tlh chunk)
    · exact counted

theorem format_span_slabs (s : State) (tlh chunk : Nat) : SameSlabs s (formatSpan s tlh chunk) := by
  unfold formatSpan
  simp only
  obtain ⟨slab, bins, links⟩ :=
    rtree_set_slabs { s with vmm := claimHeader s.vmm chunk tlh .span } chunk chunk
  exact ⟨slab, bins, links⟩

theorem span_alloc_slabs (core : Core mode s g) (tlh size : Nat) :
    SameSlabs s (lzSpanAlloc s tlh size).2 := by
  have taken := only_manager_slabs (ChunkTransfer.core_vmm_alloc core).1
  unfold lzSpanAlloc
  simp only
  split
  · exact same_slabs_refl s
  split
  · exact ⟨rfl, rfl, rfl⟩
  split
  · exact taken
  · have formatted := same_slabs_trans taken
      (format_span_slabs (lzVmmAllocChunk s).2 tlh (lzVmmAllocChunk s).1)
    split
    · exact formatted
    · exact same_slabs_trans formatted ⟨rfl, rfl, rfl⟩

theorem recycle_slabs (s : State) (tlh slab : Nat) : (recycleIfEmpty s tlh slab).slab = s.slab := by
  have destroyed : ∀ ready : State, (lzSlabDestroy ready slab).slab = ready.slab := by
    intro ready
    unfold lzSlabDestroy
    simp only
    split
    · rfl
    · exact (vmm_free_slabs _ _).slab.trans (rtree_set_slabs _ _ _).slab
  unfold recycleIfEmpty lzTlhRecycleEmptySlab
  simp only
  split
  · split
    · split
      · rfl
      · exact destroyed _
    · exact destroyed _
  · rfl

/-! ## Local frees -/

/-- The block that is put on a free list decodes to the old head in both. -/
theorem twin_push (core : Core mode s g) (isSlab : g.kind (chunkBase ptr) = .slab tlh classIdx)
    (live : g.node ptr = .live) (twin : Twin g s t) :
    Twin (g.settle ptr .free) (pushFreeBlock s (chunkBase ptr + 64) ptr)
      (pushFreeBlock t (chunkBase ptr + 64) ptr) := by
  have present : g.node ptr ≠ .none := by simp [live]
  have aligned := (core_node_cell core present).1
  have bound := (core_node_bound core present).2
  have headBound := slab_head_bound core isSlab
  have head := congrFun (alike_slab_eq twin.alike).1 (chunkBase ptr + 64)
  have others : ∀ (mem : Memory) (value other : Nat), other ≠ ptr → g.node other ≠ .none →
      linkAt (store mem ptr 8 value) other = linkAt mem other := by
    intro mem value other different otherPresent
    exact link_at_store_other mem aligned (core_node_cell core otherPresent).1 different
  constructor
  · exact push_free_alike twin.alike (chunkBase ptr + 64) ptr
  · intro other free
    by_cases same : other = ptr
    · rw [same]
      have left : freeLink s.secret (pushFreeBlock s (chunkBase ptr + 64) ptr).mem ptr =
          (s.slab (chunkBase ptr + 64)).freeListHead :=
        free_link_store s.secret s.mem (by omega) (by omega)
      have right : freeLink t.secret (pushFreeBlock t (chunkBase ptr + 64) ptr).mem ptr =
          (t.slab (chunkBase ptr + 64)).freeListHead :=
        free_link_store t.secret t.mem (by rw [head]; omega) (by omega)
      exact right.trans ((congrArg Slab.freeListHead head).trans left.symm)
    · have before : g.node other = .free := by simpa [same] using free
      have left := free_link_congr s.secret (others s.mem
        (lzPtrObfuscate s.secret (s.slab (chunkBase ptr + 64)).freeListHead ptr) other same
        (by simp [before]))
      have right := free_link_congr t.secret (others t.mem
        (lzPtrObfuscate t.secret (t.slab (chunkBase ptr + 64)).freeListHead ptr) other same
        (by simp [before]))
      exact right.trans ((twin.free other before).trans left.symm)
  · intro other flying
    have different : other ≠ ptr := by
      intro same
      simp [same, NodePlace.InFlight] at flying
    have before : (g.node other).InFlight := by simpa [different] using flying
    have otherPresent : g.node other ≠ .none := by
      intro none
      simp [none, NodePlace.InFlight] at before
    have left := others s.mem
      (lzPtrObfuscate s.secret (s.slab (chunkBase ptr + 64)).freeListHead ptr) other different
      otherPresent
    have right := others t.mem
      (lzPtrObfuscate t.secret (t.slab (chunkBase ptr + 64)).freeListHead ptr) other different
      otherPresent
    exact right.trans ((twin.flying other before).trans left.symm)

theorem pushed_footprint (s : State) (tlh chunk ptr : Nat) :
    Footprint (fun _ => False) (pushFreeBlock s (chunk + 64) ptr)
    (lzTlhFreeSlab s tlh chunk ptr) := by
  unfold lzTlhFreeSlab
  simp only [lzCacheLineSize]
  generalize pushFreeBlock s (chunk + 64) ptr = pushed
  obtain ⟨regions, mem⟩ := rescue_frame pushed tlh (chunk + 64)
  have recycled := footprint_trans
    (recycle_footprint (fun _ => False) (rescueIfWasFull pushed tlh (chunk + 64)) tlh (chunk + 64))
    regions fun byte => Or.inl (congrFun mem byte)
  obtain ⟨lastRegions, lastMem, lastVmm⟩ := account_free_frame
    (recycleIfEmpty (rescueIfWasFull pushed tlh (chunk + 64)) tlh (chunk + 64)) tlh
    ((recycleIfEmpty (rescueIfWasFull pushed tlh (chunk + 64)) tlh (chunk + 64)).slab
      (chunk + 64)).blockSize
  exact footprint_same recycled lastRegions lastMem lastVmm

theorem pushed_slabs (s : State) (tlh chunk ptr : Nat) :
    (lzTlhFreeSlab s tlh chunk ptr).slab = (pushFreeBlock s (chunk + 64) ptr).slab := by
  unfold lzTlhFreeSlab
  simp only [lzCacheLineSize, account_free_slab]
  rw [recycle_slabs, rescue_slab_field]

theorem twin_free_slab (inv : Inv mode s g) (here : g.kind (chunkBase ptr) = .slab tlh classIdx)
    (live : g.node ptr = .live) (twin : Twin g s t)
    (laterInv : Inv mode (lzTlhFreeSlab s tlh (chunkBase ptr) ptr) last)
    (kinds : ∀ chunk, last.kind chunk = g.kind chunk ∨ ∃ place, last.kind chunk = .idle place)
    (flying : ∀ other, (last.node other).InFlight → (g.node other).InFlight) :
    Twin last (lzTlhFreeSlab s tlh (chunkBase ptr) ptr)
    (lzTlhFreeSlab t tlh (chunkBase ptr) ptr) := by
  have pushed := core_push_free inv.toCore here live
  have secret : ∀ state : State, (lzTlhFreeSlab state tlh (chunkBase ptr) ptr).secret =
      (pushFreeBlock state (chunkBase ptr + 64) ptr).secret :=
    fun state => (free_slab_outside state tlh (chunkBase ptr) ptr).secret
  apply twin_footprint pushed laterInv.toCore (twin_push inv.toCore here live twin)
    (free_slab_alike twin.alike tlh (chunkBase ptr) ptr)
  · intro chunk heap size isSlab
    right
    constructor
    · refine ⟨heap, size, ?_⟩
      rcases kinds chunk with same | ⟨place, idle⟩
      · rw [Ghost.settle_kind, ← same]
        exact isSlab
      · rw [idle] at isSlab
        cases isSlab
    · left
      rw [pushed_slabs]
  · intro other there
    have before := flying other there
    have different : other ≠ ptr := by
      intro same
      rw [same, live] at before
      exact before
    simpa [different] using before
  · exact pushed_footprint s tlh (chunkBase ptr) ptr
  · exact pushed_footprint t tlh (chunkBase ptr) ptr
  · exact secret s
  · exact secret t

theorem twin_span_free (inv : Inv mode s g) (twin : Twin g s t)
    (laterInv : Inv mode (lzSpanFreeLocal s tlh chunk ptr) last)
    (flying : ∀ other, (last.node other).InFlight → (g.node other).InFlight) :
    Twin last (lzSpanFreeLocal s tlh chunk ptr) (lzSpanFreeLocal t tlh chunk ptr) := by
  apply twin_footprint inv.toCore laterInv.toCore twin (span_free_alike twin.alike tlh chunk ptr)
  · exact lists_shrink_same inv.toCore laterInv.toCore (span_free_slabs s tlh chunk ptr)
  · exact flying
  · exact span_free_footprint _ s tlh chunk ptr
  · exact span_free_footprint _ t tlh chunk ptr
  · exact (span_free_outside s tlh chunk ptr).secret
  · exact (span_free_outside t tlh chunk ptr).secret

/-! ## Reaping -/

theorem twin_reap_node (inv : Inv mode s g) (more : g.cursor tlh ≠ 0) (twin : Twin g s t)
    (laterInv : Inv mode (lzTlhReapNode s tlh (g.cursor tlh)) last) (landed : Landed g last)
    (gone : ∀ heap, last.node (g.cursor tlh) ≠ .reaping heap)
    (kinds : ∀ chunk, last.kind chunk = g.kind chunk ∨ ∃ place, last.kind chunk = .idle place) :
    Twin last (lzTlhReapNode s tlh (g.cursor tlh)) (lzTlhReapNode t tlh (g.cursor tlh)) := by
  obtain ⟨advanced, first, owned⟩ := inv_advance inv more
  have live : (advance g s.mem tlh).node (g.cursor tlh) = .live := Function.update_self _ _ _
  have taken : Twin (advance g s.mem tlh) s t := by
    apply twin_fewer twin
    · intro other free
      by_cases same : other = g.cursor tlh
      · rw [same, live] at free
        cases free
      · simpa [advance, same] using free
    · intro other there
      by_cases same : other = g.cursor tlh
      · rw [same, first]
        trivial
      · simpa [advance, same] using there
  have flying : ∀ other, (last.node other).InFlight →
      ((advance g s.mem tlh).node other).InFlight := by
    intro other there
    have before := landed other there
    have different : other ≠ g.cursor tlh := by
      intro same
      rw [same, first] at before
      exact gone tlh before
    rw [before] at there
    simpa [advance, different] using there
  have types := alike_vmm_eq twin.alike
  unfold lzTlhReapNode at laterInv ⊢
  simp only [types]
  cases kind : g.kind (chunkBase (g.cursor tlh)) with
  | slab heap classIdx =>
      obtain rfl : heap = tlh := by simpa [kind, BlockKind.owner] using owned
      simp only [(inv.header.slab _ heap classIdx kind).2.1] at laterInv ⊢
      exact twin_free_slab advanced kind live taken laterInv kinds flying
  | span heap =>
      obtain rfl : heap = tlh := by simpa [kind, BlockKind.owner] using owned
      simp only [(inv.header.span _ heap kind).2] at laterInv ⊢
      exact twin_span_free advanced taken laterInv flying
  | unused => simp [kind, BlockKind.owner] at owned
  | idle place => simp [kind, BlockKind.owner] at owned
  | loose => simp [kind, BlockKind.owner] at owned
  | direct header => simp [kind, BlockKind.owner] at owned

theorem twin_reap_loop (inv : Inv mode s g) {fuel count : Nat}
    (chain : Enumerates (linkAt s.mem) (g.cursor tlh) (fun ptr => g.node ptr = .reaping tlh) count)
    (enough : count ≤ fuel) (twin : Twin g s t) :
    ∃ last, Inv mode (lzTlhReapLoop fuel s tlh (g.cursor tlh)) last ∧
      last.cursor = Function.update g.cursor tlh 0 ∧
      Twin last (lzTlhReapLoop fuel s tlh (g.cursor tlh))
      (lzTlhReapLoop fuel t tlh (g.cursor tlh)) := by
  have stop : ∀ ghost : Ghost, ghost.cursor tlh = 0 →
      ghost.cursor = Function.update ghost.cursor tlh 0 := by
    intro ghost null
    rw [← null, Function.update_eq_self]
  induction fuel generalizing s t g count with
  | zero =>
      obtain rfl : count = 0 := Nat.le_zero.mp enough
      exact ⟨g, inv, stop g (enumerates_zero chain).1, twin⟩
  | succ fuel ih =>
      unfold lzTlhReapLoop
      by_cases null : g.cursor tlh = 0
      · rw [if_pos null, if_pos null]
        exact ⟨g, inv, stop g null, twin⟩
      · rw [if_neg null, if_neg null]
        obtain ⟨after, afterInv, quiet, gone, swept, landed⟩ := inv_reap_node inv null
        have visited : g.node (g.cursor tlh) = .reaping tlh := by
          have head := enumerates_head chain null
          exact head
        have same : linkAt t.mem (g.cursor tlh) = linkAt s.mem (g.cursor tlh) := by
          apply twin.flying
          rw [visited]
          trivial
        have next : linkAt s.mem (g.cursor tlh) = after.cursor tlh := by
          rw [swept.cursor]
          simp [advance]
        obtain ⟨fewer, shorter⟩ := afterInv.mail.reaping tlh
        have fewerLt := enumerates_lt chain shorter (fun ptr => quiet.reaping ptr tlh) visited
          (gone tlh)
        have reaped := twin_reap_node inv null twin afterInv landed gone swept.kinds
        obtain ⟨last, lastInv, ended, lastTwin⟩ := ih afterInv shorter (by omega) reaped
        simp only [same, next]
        refine ⟨last, lastInv, ?_, lastTwin⟩
        rw [ended, swept.cursor]
        simp [advance]

/-! ## Pairs of states between operations -/

/-- Twins in which no heap is in the middle of a reap. -/
def Paired (mode : Mode) (s t : State) : Prop :=
  ∃ g, Inv mode s g ∧ (∀ tlh, g.cursor tlh = 0) ∧ Twin g s t

structure PairedResult (mode : Mode) (left right : Nat × State) : Prop where
  value : right.1 = left.1
  states : Paired mode left.2 right.2

/-- Whichever ghost describes the state, its links are those that agree. -/
theorem paired_twin (paired : Paired mode s t) (core : Core mode s g)
    (idle : ∀ tlh, g.cursor tlh = 0) : Twin g s t := by
  obtain ⟨known, inv, knownIdle, twin⟩ := paired
  apply twin_frame inv.toCore core twin twin.alike
  · exact lists_shrink_same inv.toCore core (same_slabs_refl s)
  · intro ptr flying
    exact (travelling_iff inv.toCore knownIdle).mp ((travelling_iff core idle).mpr flying)
  · exact same_links_refl known g s.mem
  · exact same_links_refl known g t.mem
  · rfl
  · rfl

theorem reaping_bounded {count : Nat} (core : Core mode s g)
    (chain : Enumerates (linkAt s.mem) (g.cursor tlh)
      (fun ptr => g.node ptr = .reaping tlh) count) :
    count ≤ addressLimit := by
  apply enumerates_bound chain
  intro ptr reaped
  have bound := core_node_bound core (by simp [reaped] : g.node ptr ≠ .none)
  simp only [addressLimit]
  omega

theorem alike_mail_eq (alike : Alike s t) :
    t.remoteFreeHead = s.remoteFreeHead ∧ t.outgoingBatch = s.outgoingBatch := by
  obtain ⟨mem, secret, rfl⟩ := alike
  exact ⟨rfl, rfl⟩

theorem paired_reap (paired : Paired mode s t) (tlh : Nat) :
    Paired mode (lzTlhReap s tlh) (lzTlhReap t tlh) := by
  obtain ⟨g, inv, idle, twin⟩ := paired
  have detachedInv := inv_detach inv (idle tlh)
  obtain ⟨heads, _⟩ := alike_mail_eq twin.alike
  have alike : Alike (detachMailbox s tlh) (detachMailbox t tlh) := by
    obtain ⟨mem, secret, rfl⟩ := twin.alike
    exact ⟨mem, secret, rfl⟩
  have places : ∀ ptr, detached g.node tlh ptr = g.node ptr ∨
      g.node ptr = .mail tlh ∧ detached g.node tlh ptr = .reaping tlh := by
    intro ptr
    by_cases mailed : g.node ptr = .mail tlh
    · exact Or.inr ⟨mailed, if_pos mailed⟩
    · exact Or.inl (if_neg mailed)
  have detachedTwin : Twin
      { g with
        node := detached g.node tlh
        cursor := Function.update g.cursor tlh (s.remoteFreeHead tlh) }
      (detachMailbox s tlh) (detachMailbox t tlh) := by
    apply twin_fewer (twin_same twin alike rfl rfl rfl rfl)
    · intro ptr free
      rcases places ptr with same | ⟨_, reaped⟩
      · rw [← same]
        exact free
      · rw [show detached g.node tlh ptr = .free from free] at reaped
        cases reaped
    · intro ptr flying
      rcases places ptr with same | ⟨mailed, _⟩
      · rw [← same]
        exact flying
      · rw [mailed]
        trivial
  obtain ⟨count, chain⟩ := detachedInv.mail.reaping tlh
  obtain ⟨last, lastInv, ended, lastTwin⟩ := twin_reap_loop detachedInv chain
    (reaping_bounded detachedInv.toCore chain) detachedTwin
  simp only [Function.update_self] at lastInv lastTwin
  unfold lzTlhReap
  rw [heads]
  refine ⟨last, lastInv, ?_, lastTwin⟩
  intro heap
  rw [ended]
  by_cases same : heap = tlh
  · simp [same]
  · simp [same, idle heap]

/-! ## Allocation -/

theorem pop_matches (core : Core mode s g) (isSlab : g.kind chunk = .slab tlh classIdx)
    (nonempty : (s.slab (chunk + 64)).freeListHead ≠ 0) (twin : Twin g s t) :
    Matches (popFreeBlock s (chunk + 64)) (popFreeBlock t (chunk + 64)) := by
  have list := (core.slabs chunk tlh classIdx isSlab).freeList
  have head := enumerates_head list nonempty
  have same := twin.free _ head.2
  obtain ⟨mem, secret, rfl⟩ := twin.alike
  constructor
  · rfl
  · refine ⟨mem, secret, ?_⟩
    unfold freeLink at same
    simp only [popFreeBlock, same]
    rfl

theorem try_current_only (s : State) (tlh scIdx : Nat) :
    (tryCurrent s tlh scIdx).2 = { s with slab := (tryCurrent s tlh scIdx).2.slab } := by
  unfold tryCurrent bumpBlock
  simp only
  split
  · rfl
  split
  · split
    · rfl
    · rfl
  · rfl

theorem pop_shorter (s : State) (slab chunk : Nat) (nonempty : (s.slab slab).freeListHead ≠ 0) :
    ShorterList s ((popFreeBlock s slab).2.slab (chunk + 64)).freeListHead chunk := by
  by_cases same : chunk + 64 = slab
  · rw [← same] at nonempty ⊢
    right
    refine ⟨nonempty, ?_⟩
    simp only [popFreeBlock, setSlab, Function.update_self]
    rfl
  · left
    simp only [popFreeBlock, setSlab, Function.update_of_ne same]

theorem same_heads_shorter {descriptor : Slab} (s : State) (slab chunk : Nat)
    (head : descriptor.freeListHead = (s.slab slab).freeListHead) :
    ShorterList s ((setSlab s slab descriptor).slab (chunk + 64)).freeListHead chunk := by
  left
  by_cases same : chunk + 64 = slab
  · rw [← same] at head ⊢
    simp only [setSlab, Function.update_self, head]
  · simp only [setSlab, Function.update_of_ne same]

theorem try_current_shorter (s : State) (tlh scIdx chunk : Nat) :
    ShorterList s ((tryCurrent s tlh scIdx).2.slab (chunk + 64)).freeListHead chunk := by
  unfold tryCurrent bumpBlock
  simp only
  split
  · next listed => exact pop_shorter s _ chunk listed.2
  split
  · split
    · exact same_heads_shorter s _ chunk rfl
    · exact same_heads_shorter s _ chunk rfl
  · exact Or.inl rfl

theorem twin_descriptors (core : Core mode s g) (laterCore : Core mode after last)
    (twin : Twin g s t) (alike : Alike after later) (only : after = { s with slab := after.slab })
    (laterOnly : later = { t with slab := later.slab })
    (shorter : ∀ chunk, ShorterList s (after.slab (chunk + 64)).freeListHead chunk)
    (flying : ∀ ptr, (last.node ptr).InFlight → (g.node ptr).InFlight) : Twin last after later := by
  have mem : after.mem = s.mem := by rw [only]
  have laterMem : later.mem = t.mem := by rw [laterOnly]
  apply twin_frame core laterCore twin alike
  · intro chunk heap size isSlab
    right
    constructor
    · refine ⟨heap, size, slab_kind_of_bins core laterCore ?_ ?_ isSlab⟩
      · rw [only]
      · rw [only]
    · exact shorter chunk
  · exact flying
  · rw [mem]
    exact same_links_refl g last s.mem
  · rw [laterMem]
    exact same_links_refl g last t.mem
  · rw [only]
  · rw [laterOnly]

theorem try_current_matches (inv : Inv mode s g) (twin : Twin g s t) (tlh scIdx : Nat) :
    Matches (tryCurrent s tlh scIdx) (tryCurrent t tlh scIdx) := by
  have same := alike_slab_eq twin.alike
  unfold tryCurrent
  simp only [same.1, same.2]
  split
  · next listed =>
      obtain ⟨chunk, position, isSlab, _⟩ := BinLists.core_current_slab inv.toCore listed.1
      rw [position] at listed ⊢
      exact pop_matches inv.toCore isSlab listed.2 twin
  split
  · exact bump_matches twin.alike _
  · exact ⟨rfl, twin.alike⟩

theorem paired_try_current (paired : Paired mode s t) (tlh scIdx : Nat) :
    PairedResult mode (tryCurrent s tlh scIdx) (tryCurrent t tlh scIdx) := by
  obtain ⟨g, inv, idle, twin⟩ := paired
  have same := try_current_matches inv twin tlh scIdx
  have outcome : ∃ last, Inv mode (tryCurrent s tlh scIdx).2 last ∧ last.cursor = g.cursor ∧
      ∀ ptr, (last.node ptr).InFlight → (g.node ptr).InFlight := by
    cases inv_try_current inv tlh scIdx with
    | inl failed => exact ⟨g, failed.2.1, rfl, fun _ => id⟩
    | inr got =>
        obtain ⟨_, last, lastInv, allocated, course⟩ := got
        exact ⟨last, lastInv, course.cursor, allocated.flying⟩
  obtain ⟨last, lastInv, cursor, flying⟩ := outcome
  refine ⟨same.value, last, lastInv, ?_, ?_⟩
  · rw [cursor]
    exact idle
  · exact twin_descriptors inv.toCore lastInv.toCore twin same.state (try_current_only s tlh scIdx)
      (try_current_only t tlh scIdx) (try_current_shorter s tlh scIdx) flying

theorem paired_attempt (paired : Paired mode s t) (tlh scIdx : Nat) :
    PairedResult mode (lzTlhAllocAttempt s tlh scIdx) (lzTlhAllocAttempt t tlh scIdx) := by
  obtain ⟨_, _, _, twin⟩ := id paired
  have same := alike_slab_eq twin.alike
  have first := paired_try_current paired tlh scIdx
  rw [HeapOperations.lz_tlh_alloc_attempt_eq, HeapOperations.lz_tlh_alloc_attempt_eq,
    same.1, same.2]
  split
  · next listed =>
      unfold tryCurrent at first
      simp only [same.1, same.2, if_pos listed] at first
      exact first
  · exact paired_try_current (paired_reap paired tlh) tlh scIdx

theorem paired_span_alloc (paired : Paired mode s t) (heap : tlh ∈ s.heaps) (size : Nat) :
    PairedResult mode (lzSpanAlloc s tlh size) (lzSpanAlloc t tlh size) := by
  obtain ⟨g, inv, idle, twin⟩ := paired
  have same := span_alloc_matches twin.alike tlh size
  obtain ⟨last, lastInv, course, outcome⟩ := inv_span_alloc inv heap size
  have flying : ∀ ptr, (last.node ptr).InFlight → (g.node ptr).InFlight := by
    cases outcome with
    | inl failed => exact failed.2.flying
    | inr got => exact got.2.flying
  refine ⟨same.value, last, lastInv, ?_, ?_⟩
  · rw [course.cursor]
    exact idle
  · apply twin_keeps inv.toCore lastInv.toCore twin same.state
    · exact lists_shrink_same inv.toCore lastInv.toCore (span_alloc_slabs inv.toCore tlh size)
    · exact flying
    · exact span_alloc_keeps s tlh size
    · exact span_alloc_keeps t tlh size
    · exact (span_alloc_accounts s tlh size).outside.secret
    · exact (span_alloc_accounts t tlh size).outside.secret

theorem twin_vmm_alloc {roles : Nat → BlockKind} (core : Core mode s g) (twin : Twin g s t)
    (laterCore : Core mode (lzVmmAllocChunk s).2 { g with kind := roles }) :
    Twin { g with kind := roles } (lzVmmAllocChunk s).2 (lzVmmAllocChunk t).2 := by
  apply twin_keeps core laterCore twin (vmm_alloc_matches twin.alike).state
  · exact lists_shrink_same core laterCore
      (only_manager_slabs (ChunkTransfer.core_vmm_alloc core).1)
  · exact fun _ => id
  · exact vmm_alloc_keeps s
  · exact vmm_alloc_keeps t
  · exact (vmm_alloc_accounts s).outside.secret
  · exact (vmm_alloc_accounts t).outside.secret

theorem install_slab_alike (alike : Alike s t) (tlh classIdx chunk : Nat) :
    Alike (installSlab s tlh classIdx chunk) (installSlab t tlh classIdx chunk) := by
  obtain ⟨mem, secret, retired⟩ :=
    retire_alike (format_slab_alike alike tlh classIdx chunk) tlh classIdx
  unfold installSlab
  simp only [retired]
  exact ⟨mem, secret, rfl⟩

theorem twin_install {bin : Nat → BinPlace} (core : Core mode s g) (twin : Twin g s t)
    (laterCore : Core mode (installSlab s tlh classIdx chunk)
      (setRole g chunk (.slab tlh classIdx) bin)) :
    Twin (setRole g chunk (.slab tlh classIdx) bin) (installSlab s tlh classIdx chunk)
      (installSlab t tlh classIdx chunk) := by
  have frame : ∀ state : State, (installSlab state tlh classIdx chunk).mem = state.mem ∧
      (installSlab state tlh classIdx chunk).secret = state.secret := by
    intro state
    rw [install_slab_eq]
    exact ⟨rfl, rfl⟩
  apply twin_frame core laterCore twin (install_slab_alike twin.alike tlh classIdx chunk)
  · intro base heap size isSlab
    by_cases same : base = chunk
    · left
      rw [same, install_slab_eq]
      simp only [Function.update_self, freshSlab]
    · right
      constructor
      · exact ⟨heap, size, by simpa [setRole, same] using isSlab⟩
      · left
        rw [install_slab_eq]
        simp only [Function.update_of_ne (by omega : base + 64 ≠ chunk + 64)]
  · intro ptr flying
    by_cases inside : chunkBase ptr = chunk
    · simp [setRole, drop_nodes_inside inside, NodePlace.InFlight] at flying
    · simpa [setRole, drop_nodes_outside inside] using flying
  · rw [(frame s).1]
    exact same_links_refl _ _ s.mem
  · rw [(frame t).1]
    exact same_links_refl _ _ t.mem
  · exact (frame s).2
  · exact (frame t).2

def firstBlock (s : State) (slab : Nat) : Nat × State :=
  ((s.slab slab).bumpPtr,
    setSlab s slab
      { s.slab slab with
        bumpPtr := (s.slab slab).bumpPtr + (s.slab slab).blockSize
        usedObjects := ((s.slab slab).usedObjects + 1) % 2 ^ 32 })

theorem alloc_slow_create_eq (exhausted : ¬(s.bins tlh classIdx).partialList ≠ 0)
    (taken : lzVmmAllocChunk s = (chunk, after)) (nonnull : chunk ≠ 0) :
    lzTlhAllocSlow s tlh classIdx = firstBlock (installSlab after tlh classIdx chunk)
    (chunk + 64) := by
  unfold lzTlhAllocSlow lzSlabCreate
  rw [if_neg exhausted]
  simp only [taken, if_neg nonnull, lzCacheLineSize]
  rw [if_neg (by omega : ¬chunk + 64 = 0)]
  rfl

theorem alloc_slow_failed_eq (exhausted : ¬(s.bins tlh classIdx).partialList ≠ 0)
    (taken : lzVmmAllocChunk s = (0, after)) : lzTlhAllocSlow s tlh classIdx = (0, after) := by
  unfold lzTlhAllocSlow lzSlabCreate
  rw [if_neg exhausted]
  simp only [taken, if_true]

theorem paired_promote (inv : Inv mode s g) (twin : Twin g s t)
    (exhausted : Exhausted s tlh classIdx) (available : (s.bins tlh classIdx).partialList ≠ 0)
    (lastInv : Inv mode (lzTlhAllocSlow s tlh classIdx).2 last)
    (flying : ∀ ptr, (last.node ptr).InFlight → (g.node ptr).InFlight) :
    (lzTlhAllocSlow t tlh classIdx).1 = (lzTlhAllocSlow s tlh classIdx).1 ∧
      Twin last (lzTlhAllocSlow s tlh classIdx).2 (lzTlhAllocSlow t tlh classIdx).2 := by
  obtain ⟨chunk, bin, position, isSlab, _, free, promoted⟩ := inv_promote inv exhausted available
  have alike := promote_alike (retire_alike twin.alike tlh classIdx) tlh classIdx
  have frame : ∀ state : State,
      (promotePartial (retireCurrent state tlh classIdx) tlh classIdx).mem = state.mem ∧
        (promotePartial (retireCurrent state tlh classIdx) tlh classIdx).secret = state.secret := by
    intro state
    rw [retire_current_only]
    exact ⟨rfl, rfl⟩
  have before : Twin { g with bin := bin } s t := twin_fewer twin (fun _ => id) fun _ => id
  have promotedTwin := twin_same before alike (frame s).1 (frame s).2 (frame t).1 (frame t).2
  have sameBins := (alike_slab_eq twin.alike).2
  have later : lzTlhAllocSlow t tlh classIdx =
      popFreeBlock (promotePartial (retireCurrent t tlh classIdx) tlh classIdx) (chunk + 64) := by
    unfold lzTlhAllocSlow
    rw [sameBins, if_pos available]
    simp only [(alike_slab_eq alike).2, position]
  have first : lzTlhAllocSlow s tlh classIdx =
      popFreeBlock (promotePartial (retireCurrent s tlh classIdx) tlh classIdx) (chunk + 64) := by
    unfold lzTlhAllocSlow
    rw [if_pos available]
    simp only [position]
  rw [first] at lastInv ⊢
  rw [later]
  have same := pop_matches promoted.toCore isSlab free promotedTwin
  constructor
  · exact same.value
  · exact twin_descriptors promoted.toCore lastInv.toCore promotedTwin same.state rfl rfl
      (fun base => pop_shorter _ _ base free) flying

theorem paired_create (inv : Inv mode s g) (twin : Twin g s t) (heap : tlh ∈ s.heaps)
    (classBound : classIdx < 40) (exhausted : ¬(s.bins tlh classIdx).partialList ≠ 0)
    (lastInv : Inv mode (lzTlhAllocSlow s tlh classIdx).2 last)
    (flying : ∀ ptr, (last.node ptr).InFlight → (g.node ptr).InFlight) :
    (lzTlhAllocSlow t tlh classIdx).1 = (lzTlhAllocSlow s tlh classIdx).1 ∧
      Twin last (lzTlhAllocSlow s tlh classIdx).2 (lzTlhAllocSlow t tlh classIdx).2 := by
  obtain ⟨chunk, left, right, leftEq, rightEq, taken⟩ :=
    matches_cases (vmm_alloc_matches twin.alike)
  obtain ⟨only, roles, same, _, core, loose⟩ := ChunkTransfer.core_vmm_alloc inv.toCore
  have takenTwin := twin_vmm_alloc inv.toCore twin core
  have sameBins := (alike_slab_eq twin.alike).2
  rw [leftEq] at only core loose takenTwin
  rw [rightEq] at takenTwin
  by_cases failed : chunk = 0
  · rw [failed] at leftEq rightEq
    rw [alloc_slow_failed_eq exhausted leftEq] at lastInv ⊢
    rw [alloc_slow_failed_eq (by rw [sameBins]; exact exhausted) rightEq]
    constructor
    · rfl
    · apply twin_frame core lastInv.toCore takenTwin taken
      · exact lists_shrink_same core lastInv.toCore (same_slabs_refl left)
      · exact flying
      · exact same_links_refl _ _ left.mem
      · exact same_links_refl _ _ right.mem
      · rfl
      · rfl
  · rw [alloc_slow_create_eq exhausted leftEq failed] at lastInv ⊢
    rw [alloc_slow_create_eq (by rw [sameBins]; exact exhausted) rightEq failed]
    have installed := core_install core (loose failed) (by rw [only]; exact heap) classBound
    have installedTwin := twin_install core takenTwin installed
    have descriptor := congrFun (alike_slab_eq installedTwin.alike).1 (chunk + 64)
    constructor
    · simp only [firstBlock, descriptor]
    · apply twin_descriptors installed lastInv.toCore installedTwin
      · obtain ⟨mem, secret, later⟩ := installedTwin.alike
        rw [later]
        exact ⟨mem, secret, rfl⟩
      · rfl
      · rfl
      · exact fun base => same_heads_shorter _ _ base rfl
      · intro ptr there
        have before := flying ptr there
        have outside : chunkBase ptr ≠ chunk := by
          intro inside
          have holds := core.objects.scope ptr (by
            intro none
            simp [show g.node ptr = .none from none, NodePlace.InFlight] at before)
          rw [inside, show ({ g with kind := roles } : Ghost).kind chunk = .loose from loose failed]
            at holds
          exact holds
        simpa [setRole, drop_nodes_outside outside] using before

theorem paired_alloc_slow (paired : Paired mode s t) (heap : tlh ∈ s.heaps)
    (classBound : classIdx < 40) (exhausted : Exhausted s tlh classIdx) :
    PairedResult mode (lzTlhAllocSlow s tlh classIdx) (lzTlhAllocSlow t tlh classIdx) := by
  obtain ⟨g, inv, idle, twin⟩ := paired
  obtain ⟨last, lastInv, course, outcome⟩ := inv_alloc_slow inv heap classBound exhausted
  have flying : ∀ ptr, (last.node ptr).InFlight → (g.node ptr).InFlight := by
    cases outcome with
    | inl failed => exact failed.2.flying
    | inr got => exact got.2.flying
  have cursors : ∀ other, last.cursor other = 0 := by
    rw [course.cursor]
    exact idle
  by_cases available : (s.bins tlh classIdx).partialList ≠ 0
  · obtain ⟨value, lastTwin⟩ := paired_promote inv twin exhausted available lastInv flying
    exact ⟨value, last, lastInv, cursors, lastTwin⟩
  · obtain ⟨value, lastTwin⟩ :=
      paired_create inv twin heap classBound available lastInv flying
    exact ⟨value, last, lastInv, cursors, lastTwin⟩

theorem paired_tlh_alloc (paired : Paired mode s t) (heap : tlh ∈ s.heaps) (size : Nat) :
    PairedResult mode (lzTlhAlloc s tlh size) (lzTlhAlloc t tlh size) := by
  unfold lzTlhAlloc
  by_cases large : size > lzMaxSlabObjSize
  · rw [if_pos large, if_pos large]
    exact paired_span_alloc paired heap size
  rw [if_neg large, if_neg large]
  obtain ⟨scIdx, scEq⟩ : ∃ scIdx, lzSizeToClass size = scIdx := ⟨_, rfl⟩
  have classBound := slab_class_bound (by simpa using large : size ≤ 32768)
  rw [scEq] at classBound
  have attempted := paired_attempt paired tlh scIdx
  have frame := (alloc_attempt_batches s tlh scIdx).threads
  have exhausted : (lzTlhAllocAttempt s tlh scIdx).1 = 0 →
      Exhausted (lzTlhAllocAttempt s tlh scIdx).2 tlh scIdx := by
    intro failed
    obtain ⟨g, inv, idle, _⟩ := paired
    cases HeapOperations.inv_alloc_attempt inv (idle tlh) scIdx with
    | inl none =>
        obtain ⟨_, _, _, _, _, empty⟩ := none
        exact empty
    | inr some => exact absurd failed some.1
  simp only [scEq]
  generalize lzTlhAllocAttempt s tlh scIdx = attempt at attempted frame exhausted ⊢
  generalize lzTlhAllocAttempt t tlh scIdx = other at attempted ⊢
  have got : PairedResult mode
    (if attempt.1 = 0 then lzTlhAllocSlow attempt.2 tlh scIdx else attempt)
      (if other.1 = 0 then lzTlhAllocSlow other.2 tlh scIdx else other) := by
    rw [attempted.value]
    split
    · next failed =>
        exact paired_alloc_slow attempted.states (by rw [frame.heaps]; exact heap) classBound
          (exhausted failed)
    · exact attempted
  generalize (if attempt.1 = 0 then lzTlhAllocSlow attempt.2 tlh scIdx else attempt) = left at got ⊢
  generalize (if other.1 = 0 then lzTlhAllocSlow other.2 tlh scIdx else other) = right at got ⊢
  obtain ⟨value, g, inv, idle, twin⟩ := got
  rw [value, (alike_slab_eq twin.alike).1, (alike_slab_eq twin.alike).2]
  by_cases failed : left.1 = 0
  · rw [if_pos failed, if_pos failed]
    exact ⟨rfl, g, inv, idle, twin⟩
  · rw [if_neg failed, if_neg failed]
    constructor
    · rfl
    · refine ⟨g, HeapOperations.inv_account_alloc inv _ _, idle, ?_⟩
      apply twin_same twin (account_alloc_alike twin.alike tlh _)
      · rw [HeapOperations.account_alloc_eq]
      · rw [HeapOperations.account_alloc_eq]
      · rw [HeapOperations.account_alloc_eq]
      · rw [HeapOperations.account_alloc_eq]

/-! ## Batches -/

theorem link_at_store_same (mem other : Memory) (node value : Nat) :
    linkAt (store other node 8 value) node = linkAt (store mem node 8 value) node := by
  apply load_congr
  intro byte lower upper
  simp only [store, if_pos (⟨lower, upper⟩ : node ≤ byte ∧ byte < node + 8)]

theorem twin_store {value : Nat} (core : Core mode s g) (present : g.node ptr ≠ .none)
    (twin : Twin g s t) (alike : Alike after later) (mem : after.mem = store s.mem ptr 8 value)
    (laterMem : later.mem = store t.mem ptr 8 value) (secret : after.secret = s.secret)
    (laterSecret : later.secret = t.secret)
    (free : ∀ other, last.node other = .free → other ≠ ptr ∧ g.node other = .free)
    (flying : ∀ other, other ≠ ptr → (last.node other).InFlight → (g.node other).InFlight) :
    Twin last after later := by
  have aligned := (core_node_cell core present).1
  have others : ∀ (memory : Memory) (other : Nat), other ≠ ptr → g.node other ≠ .none →
      linkAt (store memory ptr 8 value) other = linkAt memory other := by
    intro memory other different otherPresent
    exact link_at_store_other memory aligned (core_node_cell core otherPresent).1 different
  constructor
  · exact alike
  · intro other there
    obtain ⟨different, before⟩ := free other there
    have otherPresent : g.node other ≠ .none := by simp [before]
    rw [mem, laterMem, secret, laterSecret,
      free_link_congr _ (others s.mem other different otherPresent),
      free_link_congr _ (others t.mem other different otherPresent)]
    exact twin.free other before
  · intro other there
    rw [mem, laterMem]
    by_cases same : other = ptr
    · rw [same]
      exact link_at_store_same s.mem t.mem ptr value
    · have before := flying other same there
      have otherPresent : g.node other ≠ .none := by
        intro none
        simp [none, NodePlace.InFlight] at before
      rw [others s.mem other same otherPresent, others t.mem other same otherPresent]
      exact twin.flying other before

theorem flush_filled
    (filled : ¬((s.outgoingBatch tlh).count = 0 ∨ (s.outgoingBatch tlh).targetTlh = 0)) :
    (lzTlhFlushOutgoingBatch s tlh).mem = store s.mem (s.outgoingBatch tlh).tail 8
        (s.remoteFreeHead (s.outgoingBatch tlh).targetTlh) ∧
      (lzTlhFlushOutgoingBatch s tlh).secret = s.secret := by
  unfold lzTlhFlushOutgoingBatch
  rw [if_neg filled]
  exact ⟨rfl, rfl⟩

/-- Both flushes link the tail of the batch to the same mailbox head. -/
theorem twin_flush (inv : Inv mode s g) (twin : Twin g s t) (tlh : Nat) :
    ∃ node, Inv mode (lzTlhFlushOutgoingBatch s tlh) { g with node := node } ∧
      Quiet g { g with node := node } ∧
      ((lzTlhFlushOutgoingBatch s tlh).outgoingBatch tlh).count = 0 ∧
      Twin { g with node := node } (lzTlhFlushOutgoingBatch s tlh)
      (lzTlhFlushOutgoingBatch t tlh) := by
  obtain ⟨node, flushedInv, quiet, empty, places⟩ := inv_flush inv tlh
  refine ⟨node, flushedInv, quiet, empty, ?_⟩
  have alike := flush_alike twin.alike tlh
  obtain ⟨heads, batches⟩ := alike_mail_eq twin.alike
  have free : ∀ ptr, node ptr = .free → g.node ptr = .free := by
    intro ptr there
    rw [places] at there
    unfold flushed at there
    split at there
    · cases there
    · exact there
  by_cases nothing : (s.outgoingBatch tlh).count = 0 ∨ (s.outgoingBatch tlh).targetTlh = 0
  · have left : lzTlhFlushOutgoingBatch s tlh = s := if_pos nothing
    have right : lzTlhFlushOutgoingBatch t tlh = t := by
      rw [← batches] at nothing
      exact if_pos nothing
    rw [left, right]
    exact twin_fewer twin free quiet.flying
  · obtain ⟨leftMem, leftSecret⟩ := flush_filled nothing
    obtain ⟨rightMem, rightSecret⟩ := flush_filled (by rw [batches]; exact nothing :
      ¬((t.outgoingBatch tlh).count = 0 ∨ (t.outgoingBatch tlh).targetTlh = 0))
    rw [batches, heads] at rightMem
    have filled : (s.outgoingBatch tlh).count ≠ 0 := fun none => nothing (Or.inl none)
    have tail : g.node (s.outgoingBatch tlh).tail = .batch tlh := by
      have visited := ends_at_tail (inv.mail.batchList tlh filled)
      exact visited
    apply twin_store inv.toCore (by simp [tail]) twin alike leftMem rightMem leftSecret rightSecret
    · intro other there
      have before := free other there
      refine ⟨?_, before⟩
      intro same
      rw [same, tail] at before
      cases before
    · exact fun other _ => quiet.flying other

theorem twin_enqueue (inv : Inv mode s g) (twin : Twin g s t) (live : g.node ptr = .live)
    (tlh : Nat) :
    Twin (g.settle ptr (.batch tlh)) (enqueueRemote s tlh ptr) (enqueueRemote t tlh ptr) := by
  obtain ⟨_, batches⟩ := alike_mail_eq twin.alike
  apply @twin_store mode s t _ _ g _ ptr (s.outgoingBatch tlh).head inv.toCore (by simp [live]) twin
    (enqueue_alike twin.alike tlh ptr)
  · rfl
  · rw [← batches]
    rfl
  · rfl
  · rfl
  · intro other there
    by_cases same : other = ptr
    · simp [same] at there
    · exact ⟨same, by simpa [same] using there⟩
  · intro other different there
    simpa [different] using there

/-! ## Remote frees -/

theorem twin_clear (inv : Inv mode s g) (twin : Twin g s t) (live : g.node ptr = .live) :
    Inv mode (setLink s ptr 0) g ∧ Twin g (setLink s ptr 0) (setLink t ptr 0) := by
  constructor
  · apply inv_mem inv
    intro other carries
    have apart : other ≠ ptr := by
      intro same
      simp [same, live, NodePlace.InFlight] at carries
    apply core_link_store_other inv.toCore (by simp [live]) _ apart
    intro absent
    simp [absent, NodePlace.InFlight] at carries
  · apply @twin_store mode s t _ _ g g ptr 0 inv.toCore (by simp [live]) twin
      (alike_mem twin.alike _ _) rfl rfl rfl rfl
    · intro other there
      refine ⟨?_, there⟩
      intro same
      rw [same, live] at there
      cases there
    · exact fun _ _ there => there

theorem twin_retarget (twin : Twin g s t) (tlh owner : Nat) :
    Twin g
      { s with
        outgoingBatch := Function.update s.outgoingBatch tlh
          { s.outgoingBatch tlh with targetTlh := owner } }
      { t with
        outgoingBatch := Function.update t.outgoingBatch tlh
          { t.outgoingBatch tlh with targetTlh := owner } } := by
  constructor
  · obtain ⟨mem, secret, rfl⟩ := twin.alike
    exact ⟨mem, secret, rfl⟩
  · exact twin.free
  · exact twin.flying

theorem paired_free_remote {owner : Nat} (inv : Inv mode s g) (idle : ∀ tlh, g.cursor tlh = 0)
    (twin : Twin g s t) (live : g.node ptr = .live)
    (owned : (g.kind (chunkBase ptr)).owner = some owner) (heap : tlh ∈ s.heaps)
    (resolves : mode.freesResolve → lzRtreeGet s.rtree ptr ≠ 0) :
    Paired mode (lzTlhFreeRemote s tlh owner ptr) (lzTlhFreeRemote t tlh owner ptr) := by
  obtain ⟨cleared, clearedTwin⟩ := twin_clear inv twin live
  obtain ⟨_, batches⟩ := alike_mail_eq clearedTwin.alike
  unfold lzTlhFreeRemote
  simp only [batches]
  by_cases other : ((setLink s ptr 0).outgoingBatch tlh).targetTlh ≠ owner ∨
      ((setLink s ptr 0).outgoingBatch tlh).count ≥ lzBatchMaxSize
  · rw [if_pos other, if_pos other]
    obtain ⟨node, flushedInv, quiet, empty, flushedTwin⟩ := twin_flush cleared clearedTwin tlh
    have only := lz_tlh_flush_only (setLink s ptr 0) tlh
    have stillLive := (quiet.live ptr).mpr live
    have ready := inv_retarget flushedInv empty owner
    have enqueued := inv_enqueue ready tlh stillLive (by simpa using owned) (by simp [empty])
      (by rw [only]; exact heap) (by rw [only]; exact resolves)
    exact ⟨_, enqueued, idle,
      twin_enqueue ready (twin_retarget flushedTwin tlh owner) stillLive tlh⟩
  · rw [if_neg other, if_neg other]
    simp only [lzBatchMaxSize, not_or, not_not, not_le] at other
    have enqueued :=
      inv_enqueue cleared tlh live (by rw [other.1]; exact owned) other.2 heap resolves
    exact ⟨_, enqueued, idle, twin_enqueue cleared clearedTwin live tlh⟩

theorem paired_tlh_free {owner : Nat} (inv : Inv mode s g) (idle : ∀ tlh, g.cursor tlh = 0)
    (twin : Twin g s t) (live : g.node ptr = .live)
    (owned : (g.kind (chunkBase ptr)).owner = some owner) (heap : tlh ∈ s.heaps)
    (resolves : mode.freesResolve → lzRtreeGet s.rtree ptr ≠ 0) :
    Paired mode (lzTlhFree s tlh ptr) (lzTlhFree t tlh ptr) := by
  have present : g.node ptr ≠ .none := by simp [live]
  rw [lz_tlh_free_eq inv.toCore present owned tlh,
    lz_tlh_free_eq (core_twin inv.toCore twin) present owned tlh, alike_vmm_eq twin.alike]
  by_cases mine : owner = tlh
  · rw [if_pos mine, if_pos mine]
    rw [mine] at owned
    cases kind : g.kind (chunkBase ptr) with
    | slab holder classIdx =>
        obtain rfl : holder = tlh := by simpa [kind, BlockKind.owner] using owned
        simp only [(inv.header.slab _ holder classIdx kind).2.1]
        obtain ⟨last, lastInv, released, swept, landed⟩ := inv_free_slab inv kind live
        refine ⟨last, lastInv, ?_, ?_⟩
        · rw [swept.cursor]
          exact idle
        · apply twin_free_slab inv kind live twin lastInv swept.kinds
          intro other there
          rw [landed other there] at there
          exact there
    | span holder =>
        obtain rfl : holder = tlh := by simpa [kind, BlockKind.owner] using owned
        simp only [(inv.header.span _ holder kind).2]
        obtain ⟨last, lastInv, released, swept, landed⟩ := inv_span_free inv kind live
        refine ⟨last, lastInv, ?_, ?_⟩
        · rw [swept.cursor]
          exact idle
        · apply twin_span_free inv twin lastInv
          intro other there
          rw [landed other there] at there
          exact there
    | unused => simp [kind, BlockKind.owner] at owned
    | idle place => simp [kind, BlockKind.owner] at owned
    | loose => simp [kind, BlockKind.owner] at owned
    | direct header => simp [kind, BlockKind.owner] at owned
  · rw [if_neg mine, if_neg mine]
    exact paired_free_remote inv idle twin live owned heap resolves

end Lzmalloc.TwinStates
