/-
  Whole runs of the frame allocator, read off the first-fit library.

  A run is any sequence of `alloc_frame` and `set_page_status` calls on any bitmap.  `run_refines`
  shows that its events are a run of the abstract first-fit system over the free pages, so the
  library's theorems about runs carry over to the addresses the C code returns:

  * `allocFrame_runs`     : every call serves the first free frame or none; a frame comes back only
    after it was freed; without frees the frames increase and exhaust the free pages;
  * `allocFrames_allocs`  : the special case of calls in a row, as `setup_paging` makes them;
  * `kernelImageSafe_iff` : when the frames handed out after `setup_bitmap` miss the kernel image.
-/
import MyOs.Paging.Alloc

namespace MyOs.Paging

open MyOs.Lib

/-! ## Sequences of calls -/

/-- A call on the bitmap, for a page inside it. -/
inductive BitmapOp where
  | allocFrame
  | setPageStatus (page : Fin totalPages) (status : Bool)

/-- The bitmap after one call. -/
def bitmapAfter (kernelEnd : UInt32) (b : Bitmap) : BitmapOp → Bitmap
  | .allocFrame => (allocFrame kernelEnd b).2
  | .setPageStatus page status => setPageStatus b (UInt32.ofNat page) status

/-- The bitmap after a sequence of calls. -/
def runOps (kernelEnd : UInt32) (b : Bitmap) (ops : List BitmapOp) : Bitmap :=
  ops.foldl (bitmapAfter kernelEnd) b

/-- What `alloc_frame` returns when it is called after `ops`. -/
def frameAfter (kernelEnd : UInt32) (b : Bitmap) (ops : List BitmapOp) : UInt32 :=
  (allocFrame kernelEnd (runOps kernelEnd b ops)).1

/-- The frames handed out along the run: the nonzero results of its `alloc_frame` calls. -/
def frames (kernelEnd : UInt32) : Bitmap → List BitmapOp → List UInt32
  | _, [] => []
  | b, .allocFrame :: ops =>
    let rest := frames kernelEnd (allocFrame kernelEnd b).2 ops
    if (allocFrame kernelEnd b).1 = 0 then rest else (allocFrame kernelEnd b).1 :: rest
  | b, .setPageStatus page status :: ops =>
    frames kernelEnd (setPageStatus b (UInt32.ofNat page) status) ops

/-- The call as a request to the abstract allocator. -/
def BitmapOp.request : BitmapOp → FirstFit.Op Nat
  | .allocFrame => .alloc
  | .setPageStatus page true => .reserve page
  | .setPageStatus page false => .release page

/-- The abstract answer to the call. -/
def answer (kernelEnd : UInt32) (b : Bitmap) : BitmapOp → Option Nat
  | .allocFrame => framePage (allocFrame kernelEnd b).1
  | .setPageStatus _ _ => none

/-- The abstract events of a run. -/
def events (kernelEnd : UInt32) : Bitmap → List BitmapOp → List (FirstFit.Op Nat × Option Nat)
  | _, [] => []
  | b, op :: ops => (op.request, answer kernelEnd b op) ::
      events kernelEnd (bitmapAfter kernelEnd b op) ops

theorem events_append (kernelEnd : UInt32) : ∀ (xs ys : List BitmapOp) (b : Bitmap),
    events kernelEnd b (xs ++ ys) = events kernelEnd b xs ++
      events kernelEnd (runOps kernelEnd b xs) ys
  | [], _, _ => rfl
  | x :: xs, ys, b => by
    rw [List.cons_append, events, events, List.cons_append,
      events_append kernelEnd xs ys (bitmapAfter kernelEnd b x)]
    rfl

/-- A request of the run comes from a call of the run. -/
theorem request_mem_of_mem_events {kernelEnd : UInt32} {req : FirstFit.Op Nat} {out : Option Nat} :
    ∀ {ops : List BitmapOp} {b : Bitmap}, (req, out) ∈ events kernelEnd b ops →
      ∃ op ∈ ops, op.request = req
  | [], _, h => nomatch h
  | op :: ops, b, h => by
    rcases List.mem_cons.mp h with heq | htail
    · exact ⟨op, List.mem_cons_self, (Prod.mk.inj heq).1.symm⟩
    · obtain ⟨op', hmem, hreq⟩ := request_mem_of_mem_events htail
      exact ⟨op', List.mem_cons_of_mem _ hmem, hreq⟩

theorem eq_setPageStatus_of_release {op : BitmapOp} {p : Nat} (h : op.request = .release p) :
    ∃ page : Fin totalPages, op = .setPageStatus page false ∧ page.val = p := by
  cases op with
  | allocFrame => nomatch h
  | setPageStatus page status =>
    cases status with
    | true => nomatch h
    | false => exact ⟨page, rfl, FirstFit.Op.release.inj h⟩

theorem eq_setPageStatus_of_reserve {op : BitmapOp} {p : Nat} (h : op.request = .reserve p) :
    ∃ page : Fin totalPages, op = .setPageStatus page true ∧ page.val = p := by
  cases op with
  | allocFrame => nomatch h
  | setPageStatus page status =>
    cases status with
    | true => exact ⟨page, rfl, FirstFit.Op.reserve.inj h⟩
    | false => nomatch h

/-! ## Refinement -/

section Runs

variable {kernelEnd : UInt32} (hk : 0x8000 ≤ (virtToPhys kernelEnd).toNat)
include hk

/-- One call is one abstract step. -/
theorem bitmapAfter_step (b : Bitmap) (op : BitmapOp) :
    FirstFit.Step (startIndex kernelEnd) (freeSet b) op.request (answer kernelEnd b op)
      (freeSet (bitmapAfter kernelEnd b op)) := by
  cases op with
  | allocFrame => exact allocFrame_step hk b
  | setPageStatus page status =>
    have hp : (UInt32.ofNat page).toNat = page := toNat_ofNat_page page.isLt
    have hlt : (UInt32.ofNat page).toNat < totalPages := by rw [hp]; exact page.isLt
    cases status with
    | true =>
      rw [bitmapAfter, freeSet_setPageStatus_true b hlt, hp]
      exact .reserve _
    | false =>
      rw [bitmapAfter, freeSet_setPageStatus_false b hlt, hp]
      exact .release _

/-- **Refinement**: a run of the C code is a run of the first-fit system over the free pages. -/
theorem run_refines : ∀ (ops : List BitmapOp) (b : Bitmap),
    FirstFit.Run (startIndex kernelEnd) (freeSet b) (events kernelEnd b ops)
      (freeSet (runOps kernelEnd b ops))
  | [], _ => .nil
  | op :: ops, b => .cons (bitmapAfter_step hk b op) (run_refines ops _)

/-- The abstract allocator hands out the pages of the frames the C code hands out. -/
theorem handed_events : ∀ (ops : List BitmapOp) (b : Bitmap),
    FirstFit.handed (events kernelEnd b ops)
      = (frames kernelEnd b ops).map (fun f => f.toNat / 4096) ∧
    ∀ f ∈ frames kernelEnd b ops, f.toNat = 4096 * (f.toNat / 4096)
  | [], _ => ⟨rfl, fun f hf => nomatch hf⟩
  | .setPageStatus page status :: ops, b => handed_events ops _
  | .allocFrame :: ops, b => by
    obtain ⟨hrest, haligned⟩ := handed_events ops (allocFrame kernelEnd b).2
    by_cases hz : (allocFrame kernelEnd b).1 = 0
    · rw [frames, if_pos hz]
      refine ⟨?_, haligned⟩
      rw [← hrest, events, answer, framePage, if_pos hz]
      rfl
    · have hpage : framePage (allocFrame kernelEnd b).1
          = some ((allocFrame kernelEnd b).1.toNat / 4096) := if_neg hz
      rw [frames, if_neg hz]
      refine ⟨?_, List.forall_mem_cons.mpr ⟨toNat_eq_of_framePage hk hpage, haligned⟩⟩
      rw [List.map_cons, ← hrest, events, answer, hpage]
      rfl

/-! ## What every run does -/

/-- **A frame is never handed out twice** unless its page was freed in between. -/
theorem freed_between {b : Bitmap} {pre mid : List BitmapOp}
    (hne : frameAfter kernelEnd b pre ≠ 0)
    (hagain : frameAfter kernelEnd b (pre ++ .allocFrame :: mid) = frameAfter kernelEnd b pre) :
    ∃ page : Fin totalPages, (frameAfter kernelEnd b pre).toNat = 4096 * page ∧
      .setPageStatus page false ∈ mid := by
  have hpage : framePage (frameAfter kernelEnd b pre)
      = some ((frameAfter kernelEnd b pre).toNat / 4096) := if_neg hne
  have hafter : runOps kernelEnd b (pre ++ .allocFrame :: mid)
      = runOps kernelEnd (allocFrame kernelEnd (runOps kernelEnd b pre)).2 mid := by
    rw [runOps, List.foldl_append]
    rfl
  -- the run from the first of the two calls to the second
  have hevents : events kernelEnd (runOps kernelEnd b pre) (.allocFrame :: (mid ++ [.allocFrame]))
      = (FirstFit.Op.alloc, some ((frameAfter kernelEnd b pre).toNat / 4096)) ::
        events kernelEnd (allocFrame kernelEnd (runOps kernelEnd b pre)).2 mid ++
        [(FirstFit.Op.alloc, some ((frameAfter kernelEnd b pre).toNat / 4096))] := by
    have hsecond : framePage (allocFrame kernelEnd
        (runOps kernelEnd (allocFrame kernelEnd (runOps kernelEnd b pre)).2 mid)).1
          = some ((frameAfter kernelEnd b pre).toNat / 4096) := by
      rw [← hafter, ← frameAfter, hagain, hpage]
    rw [events, answer, ← frameAfter, hpage, bitmapAfter, events_append, events, events, answer,
      hsecond]
    rfl
  have hrun := run_refines hk (.allocFrame :: (mid ++ [.allocFrame])) (runOps kernelEnd b pre)
  rw [hevents] at hrun
  obtain ⟨out, hrel⟩ := hrun.released_between
  obtain ⟨op, hop, hreq⟩ := request_mem_of_mem_events hrel
  obtain ⟨page, rfl, hp⟩ := eq_setPageStatus_of_release hreq
  exact ⟨page, by rw [hp]; exact toNat_eq_of_framePage hk hpage, hop⟩

omit hk in
theorem noRelease_events {ops : List BitmapOp} (hno : ∀ page, .setPageStatus page false ∉ ops)
    (b : Bitmap) : FirstFit.NoRelease (events kernelEnd b ops) := by
  intro p out hmem
  obtain ⟨op, hop, hreq⟩ := request_mem_of_mem_events hmem
  obtain ⟨page, rfl, -⟩ := eq_setPageStatus_of_release hreq
  exact hno page hop

/-- Without frees the frames are pages that were free from the beginning... -/
theorem frames_free {ops : List BitmapOp} (hno : ∀ page, .setPageStatus page false ∉ ops)
    (b : Bitmap) : ∀ f ∈ frames kernelEnd b ops,
      ∃ p ∈ freeSet b, startIndex kernelEnd ≤ p ∧ f.toNat = 4096 * p := by
  intro f hf
  obtain ⟨hhanded, haligned⟩ := handed_events hk ops b
  have hmem : f.toNat / 4096 ∈ FirstFit.handed (events kernelEnd b ops) := by
    rw [hhanded]
    exact List.mem_map.mpr ⟨f, hf, rfl⟩
  obtain ⟨hfree, hstart⟩ := (run_refines hk ops b).handed_mem (noRelease_events hno b) _ hmem
  exact ⟨f.toNat / 4096, hfree, hstart, haligned f hf⟩

/-- ... they come out in strictly increasing order... -/
theorem frames_increasing {ops : List BitmapOp} (hno : ∀ page, .setPageStatus page false ∉ ops)
    (b : Bitmap) : (frames kernelEnd b ops).Pairwise (· < ·) := by
  have hinc := (run_refines hk ops b).handed_increasing (noRelease_events hno b)
  rw [(handed_events hk ops b).1, List.pairwise_map] at hinc
  refine hinc.imp (fun {f g} hfg => UInt32.lt_iff_toNat_lt.mpr ?_)
  omega

/-- ... and by the first zero every page that was free has been handed out or reserved. -/
theorem frames_exhaust {pre : List BitmapOp} {b : Bitmap}
    (hzero : frameAfter kernelEnd b pre = 0) :
    ∀ p ∈ freeSet b, startIndex kernelEnd ≤ p →
      (∃ f ∈ frames kernelEnd b pre, f.toNat = 4096 * p) ∨
      ∃ page : Fin totalPages, page.val = p ∧ .setPageStatus page true ∈ pre := by
  intro p hp hstart
  have hfail := allocFrame_step hk (runOps kernelEnd b pre)
  rw [show framePage (allocFrame kernelEnd (runOps kernelEnd b pre)).1 = none from if_pos hzero]
    at hfail
  obtain ⟨hhanded, haligned⟩ := handed_events hk pre b
  rcases (run_refines hk pre b).exhausted hfail p hp hstart with hh | ⟨out, hres⟩
  · rw [hhanded] at hh
    obtain ⟨f, hf, rfl⟩ := List.mem_map.mp hh
    exact Or.inl ⟨f, hf, haligned f hf⟩
  · obtain ⟨op, hop, hreq⟩ := request_mem_of_mem_events hres
    obtain ⟨page, rfl, hpage⟩ := eq_setPageStatus_of_reserve hreq
    exact Or.inr ⟨page, hpage, hop⟩

end Runs

/-- **Every run of the allocator**, for a physical kernel end of at least 32 KiB.  Each
    `alloc_frame` serves the lowest free page from the start index on and reserves exactly it; a
    frame is handed out again only after its page was freed; and without frees the frames strictly
    increase, are pages that were free, and have exhausted these when the first zero comes. -/
theorem allocFrame_runs (kernelEnd : UInt32) (hk : 0x8000 ≤ (virtToPhys kernelEnd).toNat)
    (b : Bitmap) (ops : List BitmapOp) :
    (∀ pre post, ops = pre ++ .allocFrame :: post →
      ServesFirst kernelEnd (runOps kernelEnd b pre)) ∧
    (∀ pre mid post, ops = pre ++ .allocFrame :: (mid ++ .allocFrame :: post) →
      frameAfter kernelEnd b pre ≠ 0 →
      frameAfter kernelEnd b (pre ++ .allocFrame :: mid) = frameAfter kernelEnd b pre →
      ∃ page : Fin totalPages, (frameAfter kernelEnd b pre).toNat = 4096 * page ∧
        .setPageStatus page false ∈ mid) ∧
    ((∀ page, .setPageStatus page false ∉ ops) →
      (frames kernelEnd b ops).Pairwise (· < ·) ∧
      (∀ f ∈ frames kernelEnd b ops,
        ∃ p ∈ freeSet b, startIndex kernelEnd ≤ p ∧ f.toNat = 4096 * p) ∧
      (∀ pre post, ops = pre ++ .allocFrame :: post → frameAfter kernelEnd b pre = 0 →
        ∀ p ∈ freeSet b, startIndex kernelEnd ≤ p →
          (∃ f ∈ frames kernelEnd b pre, f.toNat = 4096 * p) ∨
          ∃ page : Fin totalPages, page.val = p ∧ .setPageStatus page true ∈ pre)) := by
  refine ⟨fun pre _ _ => allocFrame_servesFirst hk _, fun pre mid _ _ hne hagain =>
    freed_between hk hne hagain, fun hno => ⟨frames_increasing hk hno b, frames_free hk hno b,
    fun pre _ _ hzero => frames_exhaust hk hzero⟩⟩

/-- Behind the first call page 321 is reserved, there is another call, and page 320 is freed. -/
def betweenCalls : List BitmapOp :=
  [.setPageStatus ⟨321, by decide⟩ true, .allocFrame, .setPageStatus ⟨320, by decide⟩ false]

theorem runOps_concat (kernelEnd : UInt32) (b : Bitmap) (ops : List BitmapOp) (op : BitmapOp) :
    runOps kernelEnd b (ops ++ [op]) = bitmapAfter kernelEnd (runOps kernelEnd b ops) op := by
  rw [runOps, List.foldl_append]
  rfl

theorem mem_freeSet_freed (b : Bitmap) :
    320 ∈ freeSet (bitmapAfter smallKernel.addr b (.setPageStatus ⟨320, by decide⟩ false)) := by
  have hfree := mem_freeSet_setPageStatus b (UInt32.ofNat 320) false (by decide) 320
  exact hfree.mpr (if_pos rfl ▸ rfl)

/-- A free page 320 is the first. -/
theorem allocFrame_320 {b : Bitmap} (hfree : 320 ∈ freeSet b) :
    (allocFrame smallKernel.addr b).1.toNat = 4096 * 320 := by
  have hstart : startIndex smallKernel.addr = 320 := by decide
  refine allocFrame_of_isLeast (by decide) ⟨⟨hfree, Nat.le_of_eq hstart⟩, ?_⟩
  rintro q ⟨-, hq⟩
  rw [hstart] at hq
  exact hq

/-- The second frame is another one, and the third is the first again, as its page was freed. -/
theorem allocFrame_runs_smallKernel :
    ServesFirst smallKernel.addr (runOps smallKernel.addr zeroBitmap (.allocFrame :: betweenCalls)) ∧
    (frameAfter smallKernel.addr zeroBitmap (.allocFrame :: betweenCalls)
        = frameAfter smallKernel.addr zeroBitmap [] ∧
      ∃ page : Fin totalPages, (frameAfter smallKernel.addr zeroBitmap []).toNat = 4096 * page ∧
        .setPageStatus page false ∈ betweenCalls) ∧
    (frames smallKernel.addr zeroBitmap (.allocFrame :: betweenCalls.take 2)).Pairwise (· < ·) := by
  have hk : 0x8000 ≤ (virtToPhys smallKernel.addr).toNat := by decide
  have hfirst : (frameAfter smallKernel.addr zeroBitmap []).toNat = 4096 * 320 := by
    refine allocFrame_320 (b := zeroBitmap) ?_
    rw [mem_freeSet, zeroBitmap, byteAt, Vector.getElem?_replicate]
    decide
  have hagain : (frameAfter smallKernel.addr zeroBitmap (.allocFrame :: betweenCalls)).toNat
      = 4096 * 320 := by
    have hops : .allocFrame :: betweenCalls = [.allocFrame, .setPageStatus ⟨321, by decide⟩ true,
        .allocFrame] ++ [.setPageStatus ⟨320, by decide⟩ false] := rfl
    rw [hops, frameAfter, runOps_concat]
    exact allocFrame_320 (mem_freeSet_freed _)
  have heq := UInt32.toNat_inj.mp (hagain.trans hfirst.symm)
  have hne : frameAfter smallKernel.addr zeroBitmap [] ≠ 0 := by
    intro hzero
    rw [hzero] at hfirst
    exact absurd hfirst (by decide)
  obtain ⟨hserves, hfreed, -⟩ := allocFrame_runs smallKernel.addr hk zeroBitmap
    (.allocFrame :: (betweenCalls ++ [.allocFrame]))
  obtain ⟨-, -, hincreasing⟩ := allocFrame_runs smallKernel.addr hk zeroBitmap
    (.allocFrame :: betweenCalls.take 2)
  refine ⟨hserves (.allocFrame :: betweenCalls) [] rfl,
    ⟨heq, hfreed [] betweenCalls [] rfl hne heq⟩, (hincreasing fun page hmem => ?_).1⟩
  simp [betweenCalls] at hmem

/-- When a page from the start index on is free, the next frame is one at or below it. -/
theorem allocFrame_le {kernelEnd : UInt32} (hk : 0x8000 ≤ (virtToPhys kernelEnd).toNat)
    {b : Bitmap} {p : Nat} (hfree : p ∈ freeSet b) (hp : startIndex kernelEnd ≤ p) :
    ∃ q, startIndex kernelEnd ≤ q ∧ q ≤ p ∧ (allocFrame kernelEnd b).1.toNat = 4096 * q := by
  rcases allocFrame_servesFirst hk b with ⟨q, hleast, -, haddr, -⟩ | ⟨hempty, -⟩
  · exact ⟨q, hleast.1.2, hleast.2 ⟨hfree, hp⟩, haddr⟩
  · have hmem : p ∈ freeSet b ∩ Set.Ici (startIndex kernelEnd) := ⟨hfree, hp⟩
    rw [hempty] at hmem
    exact hmem.elim

/-! ## Calls in a row -/

/-- `n` calls of `alloc_frame` one after the other. -/
def allocFrames (kernelEnd : UInt32) : Nat → Bitmap → List UInt32 × Bitmap
  | 0, b => ([], b)
  | n + 1, b =>
    let (f, b) := allocFrame kernelEnd b
    let (fs, b) := allocFrames kernelEnd n b
    (f :: fs, b)

@[simp] theorem allocFrames_length (kernelEnd : UInt32) : ∀ (n : Nat) (b : Bitmap),
    (allocFrames kernelEnd n b).1.length = n
  | 0, _ => rfl
  | n + 1, b => congrArg (· + 1) (allocFrames_length kernelEnd n (allocFrame kernelEnd b).2)

theorem allocFrame_mem_allocFrames (kernelEnd : UInt32) (n : Nat) (b : Bitmap) :
    (allocFrame kernelEnd b).1 ∈ (allocFrames kernelEnd (n + 1) b).1 :=
  List.mem_cons_self

theorem allocFrames_succ (kernelEnd : UInt32) (n : Nat) (b : Bitmap) :
    allocFrames kernelEnd (n + 1) b =
      ((allocFrame kernelEnd b).1 :: (allocFrames kernelEnd n (allocFrame kernelEnd b).2).1,
        (allocFrames kernelEnd n (allocFrame kernelEnd b).2).2) := rfl

/-- More calls in a row continue where the first ones stopped. -/
theorem allocFrames_add (kernelEnd : UInt32) (m : Nat) : ∀ (n : Nat) (b : Bitmap),
    allocFrames kernelEnd (n + m) b =
      ((allocFrames kernelEnd n b).1 ++ (allocFrames kernelEnd m (allocFrames kernelEnd n b).2).1,
        (allocFrames kernelEnd m (allocFrames kernelEnd n b).2).2)
  | 0, b => by
    rw [Nat.zero_add]
    rfl
  | n + 1, b => by
    rw [Nat.add_right_comm, allocFrames_succ, allocFrames_succ,
      allocFrames_add kernelEnd m n (allocFrame kernelEnd b).2, List.cons_append]

theorem framePage_eq_some {f : UInt32} (hne : f ≠ 0) : framePage f = some (f.toNat / 4096) :=
  if_neg hne

section InARow

variable {kernelEnd : UInt32} (hk : 0x8000 ≤ (virtToPhys kernelEnd).toNat)
include hk

/-- Calls in a row are first-fit allocations in a row. -/
theorem allocFrames_allocs : ∀ (n : Nat) (b : Bitmap),
    FirstFit.Allocs (startIndex kernelEnd) (freeSet b)
      ((allocFrames kernelEnd n b).1.map framePage) (freeSet (allocFrames kernelEnd n b).2)
  | 0, _ => .nil
  | n + 1, b => .cons (allocFrame_step hk b) (allocFrames_allocs n (allocFrame kernelEnd b).2)

/-- Each result is the address of its page, or zero. -/
theorem allocFrames_aligned : ∀ (n : Nat) (b : Bitmap), ∀ f ∈ (allocFrames kernelEnd n b).1,
    ∀ p, framePage f = some p → f.toNat = 4096 * p
  | 0, _, f, hf, _, _ => nomatch hf
  | n + 1, b, f, hf, p, hp => by
    rcases List.mem_cons.mp hf with rfl | hf
    · exact toNat_eq_of_framePage hk hp
    · exact allocFrames_aligned n (allocFrame kernelEnd b).2 f hf p hp

/-- A frame that was handed out was free, and is the address of its page. -/
theorem mem_allocFrames {n : Nat} {b : Bitmap} {f : UInt32} (hf : f ∈ (allocFrames kernelEnd n b).1)
    (hne : f ≠ 0) : ∃ p ∈ freeSet b, startIndex kernelEnd ≤ p ∧ f.toNat = 4096 * p := by
  have hpage : framePage f = some (f.toNat / 4096) := if_neg hne
  obtain ⟨hfree, hstart⟩ := (allocFrames_allocs hk n b).served_mem (a := f.toNat / 4096)
    (List.mem_map.mpr ⟨f, hf, hpage⟩)
  exact ⟨f.toNat / 4096, hfree, hstart, allocFrames_aligned hk n b f hf _ hpage⟩

/-- Every result is page-aligned, also the zero of a failure. -/
theorem allocFrames_mod {n : Nat} {b : Bitmap} {f : UInt32}
    (hf : f ∈ (allocFrames kernelEnd n b).1) : f.toNat % 4096 = 0 := by
  by_cases hz : f = 0
  · rw [hz]
    rfl
  · have haddr := allocFrames_aligned hk n b f hf _ (framePage_eq_some hz)
    omega

/-- A frame follows only smaller frames: after a failure every call fails. -/
theorem allocFrames_pairwise (n : Nat) (b : Bitmap) :
    (allocFrames kernelEnd n b).1.Pairwise fun f f' => f' ≠ 0 → f ≠ 0 ∧ f.toNat < f'.toNat := by
  have hpairs := List.pairwise_map.mp (allocFrames_allocs hk n b).pairwise
  refine hpairs.imp (fun {f f'} h hne' => ?_)
  obtain ⟨a, ha, hlt⟩ := h _ (framePage_eq_some hne')
  have hne : f ≠ 0 := by
    rintro rfl
    nomatch ha
  obtain rfl := Option.some.inj ((framePage_eq_some hne).symm.trans ha)
  exact ⟨hne, by omega⟩

end InARow

/-! ## The kernel image -/

theorem virtToPhys_ge (k : KernelEnd) : 0x8000 ≤ (virtToPhys k.addr).toNat := by
  have hgt := k.phys_gt
  rw [k.virtToPhys_addr]
  omega

/-- The start index is the image's end rounded down to eight pages; it is not below the image. -/
theorem startIndex_bounds (k : KernelEnd) :
    256 ≤ startIndex k.addr ∧ 4096 * startIndex k.addr ≤ k.phys ∧
      k.phys < 4096 * startIndex k.addr + 0x8000 := by
  have hgt := k.phys_gt
  unfold startIndex
  rw [k.virtToPhys_addr]
  omega

/-- No frame that `alloc_frame` returns after `setup_bitmap` overlaps the kernel image. -/
def KernelImageSafe (k : KernelEnd) (m : MemoryMap) (b : Bitmap) : Prop :=
  ∀ n, ∀ f ∈ (allocFrames k.addr n (setupBitmap k.addr m b)).1, ¬ k.Overlaps f.toNat

/-- **The kernel image, exactly**: it is safe from the allocator when the memory map frees none of
    the pages from the start index up to the image's end.  `setup_bitmap` reserves none of them,
    so the first such page would be the first frame handed out. -/
theorem kernelImageSafe_iff (k : KernelEnd) (m : MemoryMap) (b : Bitmap) :
    KernelImageSafe k m b ↔
      ∀ p, startIndex k.addr ≤ p → 4096 * p < k.phys → ¬ m.Frees p := by
  have hk := virtToPhys_ge k
  obtain ⟨hstart, -, -⟩ := startIndex_bounds k
  constructor
  · intro hsafe p hp hphys hfrees
    have hfree : p ∈ freeSet (setupBitmap k.addr m b) :=
      (mem_freeSet_setupBitmap k m b p).mpr ⟨by omega, hfrees⟩
    obtain ⟨q, hq, hqp, haddr⟩ := allocFrame_le hk hfree hp
    have hover := hsafe 1 _ (allocFrame_mem_allocFrames k.addr 0 (setupBitmap k.addr m b))
    rw [haddr] at hover
    exact hover ⟨by omega, by omega⟩
  · rintro hnone n f hf ⟨hlt, hgt⟩
    by_cases hz : f = 0
    · rw [hz, UInt32.toNat_zero] at hgt
      omega
    · obtain ⟨p, hfree, hp, haddr⟩ := mem_allocFrames hk hf hz
      exact hnone p hp (by omega) ((mem_freeSet_setupBitmap k m b p).mp hfree).2

/-- An image that ends at `0x149000`, in the middle of a byte of the bitmap. -/
def oddKernel : KernelEnd := ⟨0xC0149000, by decide⟩

/-- Its last page, `0x148000`, is the first frame handed out. -/
theorem not_kernelImageSafe_oddKernel : ¬ KernelImageSafe oddKernel ramMap zeroBitmap := by
  intro hsafe
  have hstart : startIndex oddKernel.addr = 0x148 := by decide
  have hfree : 0x148 ∈ freeSet (setupBitmap oddKernel.addr ramMap zeroBitmap) :=
    (mem_freeSet_setupBitmap oddKernel ramMap zeroBitmap 0x148).mpr (by decide)
  obtain ⟨q, hq, hqp, haddr⟩ := allocFrame_le (virtToPhys_ge oddKernel) hfree (le_of_eq hstart)
  obtain rfl : q = 0x148 := by omega
  have hover := hsafe 1 _ (allocFrame_mem_allocFrames oddKernel.addr 0 _)
  rw [haddr] at hover
  exact hover (by decide)

end MyOs.Paging
