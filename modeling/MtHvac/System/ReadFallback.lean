-- SUMMARY: Sequential reads of which some fall back to the file system: when they continue one another.
import MtHvac.System.Descriptor

/-!
# Falling back to the file system

A read whose request cannot be sent is served by `__real_read`. It continues at
the kernel's position, which the reads that the server answered have not moved.
-/

namespace MtHvac.System

open Base Client

/-! ## Sequences of reads -/

/-- A call of the read wrapper in a sequence. -/
structure ReadCall where
  count : Nat
  service : Service
deriving DecidableEq

/-- What the calls return, one after the other; `none` if one of them never returns. -/
def Descriptor.reads (cfg : Config) (fd : Int) (d : Descriptor) :
    List ReadCall → Option (List (Extent Byte))
  | []      => some []
  | c :: cs =>
      (d.read cfg fd c.service c.count).bind fun (x, d') =>
        (d'.reads cfg fd cs).map fun xs => x :: xs

/-! ## Two cursors -/

/-- Which open file a call reads. -/
inductive Side where
  | kernel
  | server
deriving DecidableEq

def ReadCall.side (c : ReadCall) (w : World) (fd : Int) : Side :=
  if c.service.Remote w fd then .server else .kernel

/-- How many bytes a call is granted, with the kernel's file at `pos`, if no file ends. -/
def ReadCall.grant (c : ReadCall) (w : World) (fd : Int) (pos : Nat) : Nat :=
  if c.service.Remote w fd then min (remoteCount c.count) OpenFile.maxRwCount
  else OpenFile.granted pos c.count

/-- How many bytes a call asks its side for. A count that the kernel does not take even
at the start of a file asks for none. -/
def ReadCall.size (c : ReadCall) (w : World) (fd : Int) : Nat := c.grant w fd 0

theorem ReadCall.size_ne_zero {c : ReadCall} {w : World} {fd : Int} {pos : Nat}
    (h : c.grant w fd pos ≠ 0) : c.size w fd ≠ 0 := by
  by_cases hremote : c.service.Remote w fd
  · simpa [grant, size, hremote] using h
  · simp only [grant, hremote, if_false, OpenFile.granted, ne_eq, ite_eq_right_iff,
      not_forall] at h
    obtain ⟨hgrant, h⟩ := h
    have hgrant' : OpenFile.Transferable 0 c.count := ⟨le_rfl, by have := hgrant.2; omega⟩
    simpa [grant, size, hremote, OpenFile.granted, hgrant'] using h

theorem ReadCall.grant_of_server {c : ReadCall} {w : World} {fd : Int}
    (h : c.side w fd = .server) (pos : Nat) : c.grant w fd pos = c.size w fd := by
  have hremote : c.service.Remote w fd := by
    by_contra hlocal
    simp [side, hlocal] at h
  simp [grant, size, hremote]

theorem Descriptor.read_cursor {cfg : Config} {fd : Int} {w : World} {data : List Byte}
    {c : ReadCall} {pos : Side → Nat} {d d' : Descriptor} {x : Extent Byte}
    (htracked : (w.fdMap fd).isSome) (hw : d.world = w)
    (hkernel : d.kernelFile = ⟨.regular data, pos .kernel⟩)
    (hserver : d.serverFile = ⟨.regular data, pos .server⟩)
    (h : d.read cfg fd c.service c.count = some (x, d')) :
    x = ⟨pos (c.side w fd), slice data (pos (c.side w fd)) (c.grant w fd (pos .kernel))⟩ ∧
      d'.world = w ∧
      d'.kernelFile = ⟨.regular data, Function.update pos (c.side w fd)
        (pos (c.side w fd) + x.items.length) .kernel⟩ ∧
      d'.serverFile = ⟨.regular data, Function.update pos (c.side w fd)
        (pos (c.side w fd) + x.items.length) .server⟩ := by
  subst hw
  by_cases hremote : c.service.Remote d.world fd
  · obtain ⟨hx, hworld, hkernel', hserver'⟩ := read_remote htracked hremote hserver h
    simp [ReadCall.side, ReadCall.grant, hremote, hx, hworld, hkernel', hserver', hkernel]
  · obtain ⟨hx, hworld, hserver', hkernel'⟩ := read_local htracked hremote hkernel h
    simp [ReadCall.side, ReadCall.grant, hremote, hx, hworld, hkernel', hserver', hserver]

/-- What the calls of a sequence are granted, each at the place that it finds. -/
def granted (w : World) (fd : Int) (data : List Byte) :
    (Side → Nat) → List ReadCall → List (Side × Nat)
  | _, []        => []
  | pos, c :: cs =>
      let i := c.side w fd
      let n := c.grant w fd (pos .kernel)
      (i, n) :: granted w fd data (Function.update pos i (pos i + (slice data (pos i) n).length)) cs

/-- The calls of a sequence read through two cursors. -/
theorem Descriptor.reads_readThrough {cfg : Config} {fd : Int} {w : World} {data : List Byte}
    {pos : Side → Nat} {d : Descriptor} {cs : List ReadCall} {xs : List (Extent Byte)}
    (htracked : (w.fdMap fd).isSome) (hw : d.world = w)
    (hkernel : d.kernelFile = ⟨.regular data, pos .kernel⟩)
    (hserver : d.serverFile = ⟨.regular data, pos .server⟩)
    (h : d.reads cfg fd cs = some xs) :
    xs = readThrough data pos (granted w fd data pos cs) := by
  induction cs generalizing d pos xs with
  | nil =>
      simp only [reads, Option.some.injEq] at h
      simp [← h, readThrough, granted]
  | cons c cs ih =>
      obtain ⟨⟨x, d'⟩, hread, hrest⟩ := Option.bind_eq_some_iff.mp h
      obtain ⟨xs', hxs', rfl⟩ := Option.map_eq_some_iff.mp hrest
      obtain ⟨hx, hw', hkernel', hserver'⟩ := read_cursor htracked hw hkernel hserver hread
      have hxs := ih hw' hkernel' hserver' hxs'
      rw [hxs, hx]
      simp [readThrough, granted]

section Granted

variable {w : World} {fd : Int} {data : List Byte} {pos : Side → Nat} {cs : List ReadCall}

/-- Only a call that asks for a byte is granted one. -/
theorem call_of_granted {r : Side × Nat} (h : r ∈ granted w fd data pos cs) (hr : r.2 ≠ 0) :
    ∃ c ∈ cs, c.side w fd = r.1 ∧ c.size w fd ≠ 0 := by
  induction cs generalizing pos with
  | nil => cases h
  | cons c cs ih =>
      rcases List.mem_cons.mp h with rfl | h
      · exact ⟨c, List.mem_cons_self, rfl, ReadCall.size_ne_zero hr⟩
      · obtain ⟨c', hc', hrest⟩ := ih h
        exact ⟨c', List.mem_cons_of_mem _ hc', hrest⟩

/-- The server grants all its calls. -/
theorem mem_granted_of_server {c : ReadCall} (hc : c ∈ cs) (hserver : c.side w fd = .server) :
    (Side.server, c.size w fd) ∈ granted w fd data pos cs := by
  induction cs generalizing pos with
  | nil => cases hc
  | cons c₀ cs ih =>
      rcases List.mem_cons.mp hc with rfl | hc
      · rw [granted, hserver, ReadCall.grant_of_server hserver]
        exact List.mem_cons_self
      · exact List.mem_cons_of_mem _ (ih hc)

/-- The kernel grants the first of its calls that asks for a byte, as its file stands at
the start then; a later one it may refuse. -/
theorem granted_of_kernel {c : ReadCall} (hpos : pos .kernel = 0) (hc : c ∈ cs)
    (hkernel : c.side w fd = .kernel) (hsize : c.size w fd ≠ 0) :
    ∃ r ∈ granted w fd data pos cs, r.1 = .kernel ∧ r.2 ≠ 0 := by
  induction cs generalizing pos with
  | nil => cases hc
  | cons c₀ cs ih =>
      by_cases hfirst : c₀.side w fd = .kernel ∧ c₀.size w fd ≠ 0
      · refine ⟨_, List.mem_cons_self, hfirst.1, ?_⟩
        simpa only [hpos, ReadCall.size] using hfirst.2
      · have hc' : c ∈ cs := (List.mem_cons.mp hc).resolve_left fun heq =>
          hfirst ⟨heq ▸ hkernel, heq ▸ hsize⟩
        have hstays : Function.update pos (c₀.side w fd)
            (pos (c₀.side w fd) + (slice data (pos (c₀.side w fd))
              (c₀.grant w fd (pos .kernel))).length) .kernel = 0 := by
          cases hside : c₀.side w fd with
          | server => simpa using hpos
          | kernel =>
              have hzero : c₀.grant w fd 0 = 0 := by
                by_contra hne
                exact hfirst ⟨hside, hne⟩
              simp [hpos, hzero]
        obtain ⟨r, hr, hrest⟩ := ih hstays hc'
        exact ⟨r, List.mem_cons_of_mem _ hr, hrest⟩

/-- Where a call asks for a byte, its side grants one. -/
theorem granted_of_call {c : ReadCall} (hpos : pos .kernel = 0) (hc : c ∈ cs)
    (hsize : c.size w fd ≠ 0) : ∃ r ∈ granted w fd data pos cs, r.1 = c.side w fd ∧ r.2 ≠ 0 := by
  cases hside : c.side w fd with
  | kernel => exact granted_of_kernel hpos hc hside hsize
  | server => exact ⟨_, mem_granted_of_server hc hside, rfl, hsize⟩

end Granted

/-! ## When the fallback is transparent -/

/-- Sequential reads continue one another, so that together they return a prefix
of the file, exactly when the file is empty or all reads that ask for a byte are
served by the same side. -/
theorem fallback_transparent_iff {cfg : Config} {fd : Int} {w : World} {data : List Byte}
    {cs : List ReadCall} {xs : List (Extent Byte)} (htracked : (w.fdMap fd).isSome)
    (h : (Descriptor.opened w data).reads cfg fd cs = some xs) :
    (Continues 0 xs ∧ glue xs <+: data) ↔
      data = [] ∨ ∀ c ∈ cs, ∀ c' ∈ cs, c.size w fd ≠ 0 → c'.size w fd ≠ 0 →
        (c.service.Remote w fd ↔ c'.service.Remote w fd) := by
  have hxs : xs = readThrough data (fun _ => 0) (granted w fd data (fun _ => 0) cs) :=
    Descriptor.reads_readThrough htracked rfl rfl rfl h
  have hside : ∀ c c' : ReadCall, c.side w fd = c'.side w fd ↔
      (c.service.Remote w fd ↔ c'.service.Remote w fd) := by
    intro c c'
    by_cases hc : c.service.Remote w fd <;> by_cases hc' : c'.service.Remote w fd <;>
      simp [ReadCall.side, hc, hc']
  have hprefix : Continues 0 xs → glue xs <+: data := fun hcont => by
    subst hxs
    exact hcont.glue_prefix (readThrough_cutFrom data _ _)
  rw [and_iff_left_of_imp hprefix, hxs, continues_readThrough_iff]
  refine or_congr_right ⟨fun hone c hc c' hc' hsize hsize' => ?_,
    fun hone r hr r' hr' hask hask' => ?_⟩
  · have hgranted {c : ReadCall} (hc : c ∈ cs) (hsize : c.size w fd ≠ 0) :
        ∃ r ∈ granted w fd data (fun _ => 0) cs, r.1 = c.side w fd ∧ r.2 ≠ 0 :=
      granted_of_call rfl hc hsize
    obtain ⟨r, hr, hcr, hask⟩ := hgranted hc hsize
    obtain ⟨r', hr', hcr', hask'⟩ := hgranted hc' hsize'
    rw [← hside, ← hcr, ← hcr']
    exact hone r hr r' hr' hask hask'
  · obtain ⟨c, hc, hcr, hsize⟩ := call_of_granted hr hask
    obtain ⟨c', hc', hcr', hsize'⟩ := call_of_granted hr' hask'
    rw [← hcr, ← hcr', hside]
    exact hone c hc c' hc' hsize hsize'

/-- Two reads of two bytes that are both sent. -/
theorem fallback_transparent_without_failure :
    ∃ xs, (Descriptor.opened openedWorld [10, 20, 30, 40]).reads dataDirConfig 3
        [⟨2, ⟨true, ⟨false, false⟩⟩⟩, ⟨2, ⟨true, ⟨false, false⟩⟩⟩] = some xs ∧
      Continues 0 xs ∧ glue xs <+: [10, 20, 30, 40] := by
  refine ⟨[⟨0, [10, 20]⟩, ⟨2, [30, 40]⟩], by decide +kernel, ?_⟩
  refine (@fallback_transparent_iff dataDirConfig 3 openedWorld _
    [⟨2, ⟨true, ⟨false, false⟩⟩⟩, ⟨2, ⟨true, ⟨false, false⟩⟩⟩] _ ?_ ?_).mpr ?_
  all_goals decide +kernel

/-- The first read of two bytes is sent, the second falls back and returns the
same bytes again. -/
theorem fallback_repeats_bytes :
    ¬ ∀ (cfg : Config) (fd : Int) (w : World) (data : List Byte) (cs : List ReadCall)
      (xs : List (Extent Byte)), (w.fdMap fd).isSome →
      (Descriptor.opened w data).reads cfg fd cs = some xs → glue xs <+: data := by
  intro h
  have hprefix := h dataDirConfig 3 openedWorld [10, 20, 30, 40]
    [⟨2, ⟨true, ⟨false, false⟩⟩⟩, ⟨2, ⟨false, ⟨false, false⟩⟩⟩]
    [⟨0, [10, 20]⟩, ⟨0, [10, 20]⟩] (by decide +kernel) (by decide +kernel)
  exact absurd hprefix (by decide)

end MtHvac.System
