import Mathlib.Tactic

/-!
# Layers of a stream cipher over a window of fixed length

A layer is put on a window of `N` symbols by `streamCover`: a block of `w` symbols goes to the
front, the last `w` fall off the end, and the rest is masked with the first `N` symbols of the
layer's keystream.  `streamPeel` lengthens the window by `w` zeros and masks it with the whole
keystream, so that the block comes out in front and a window behind it.

The last `w` symbols of that window are made of the zeros, and what fell off is lost unless it was
just that.  Whoever stacks layers therefore puts into the end of the innermost window what the
peeling will make of the zeros.  `filler` computes it from the keystreams alone, and
`streamPeel_tower` says that a tower of layers over such a window is peeled layer by layer.
-/

set_option autoImplicit false

namespace Library

variable {α : Type} (op : α → α → α) (zero : α) (N w : ℕ)

/-- Put a layer on a window. -/
def streamCover (s block window : List α) : List α :=
  List.zipWith op (block ++ window.take (N - w)) (s.take N)

/-- Take a layer off: the block, and the window behind it. -/
def streamPeel (s window : List α) : List α :=
  List.zipWith op (window ++ List.replicate w zero) s

/-- What the end of a window that ended with `fill` is once a layer is taken off. -/
def fillerStep (fill s : List α) : List α :=
  List.zipWith op (fill ++ List.replicate w zero) (s.drop (N - fill.length))

/-- What the end of a window is once layers with the given keystreams are taken off, the first
one first. -/
def filler (streams : List (List α)) : List α :=
  streams.foldl (fillerStep op zero N w) []

variable {op zero N w}

/-- Combining with a stream twice changes nothing. -/
theorem zipWith_cancel (hop : ∀ a b, op (op a b) b = a) {xs s : List α}
    (h : xs.length ≤ s.length) : List.zipWith op (List.zipWith op xs s) s = xs := by
  induction xs generalizing s with
  | nil => simp
  | cons x xs ih =>
      cases s with
      | nil => simp at h
      | cons b s =>
          simp only [List.length_cons, Nat.add_le_add_iff_right] at h
          rw [List.zipWith_cons_cons, List.zipWith_cons_cons, hop, ih h]

/-- Each round makes the filler `w` elements longer. -/
theorem fillerStep_length {fill s : List α} (hfill : fill.length ≤ N) (hs : s.length = N + w) :
    (fillerStep op zero N w fill s).length = fill.length + w := by
  simp only [fillerStep, List.length_zipWith, List.length_append, List.length_replicate,
    List.length_drop]
  omega

/-- The last stream makes the last round. -/
theorem filler_append_singleton (streams : List (List α)) (s : List α) :
    filler op zero N w (streams ++ [s]) =
      fillerStep op zero N w (filler op zero N w streams) s := by
  rw [filler, List.foldl_append]
  rfl

/-- The filler grows by a block with each layer. -/
theorem filler_length {streams : List (List α)} (hstreams : ∀ s ∈ streams, s.length = N + w)
    (hlen : streams.length * w ≤ N) :
    (filler op zero N w streams).length = streams.length * w := by
  induction streams using List.reverseRecOn with
  | nil => simp [filler]
  | append_singleton streams s ih =>
      rw [List.length_append, List.length_singleton, add_mul, one_mul] at hlen ⊢
      have hrec := ih (fun s' hs' => hstreams s' (List.mem_append_left _ hs')) (by omega)
      have hs := hstreams s (List.mem_append_right _ List.mem_cons_self)
      rw [filler_append_singleton, fillerStep_length (by omega) hs, hrec]

section Layer

variable {s block window fill : List α}

/-- Peeling returns as much as the stream covers. -/
theorem streamPeel_length (h : window.length + w = s.length) :
    (streamPeel op zero w s window).length = s.length := by
  rw [streamPeel, List.length_zipWith, List.length_append, List.length_replicate, h, Nat.min_self]

/-- Text that was masked with the keystream alone comes out in front as well. -/
theorem streamPeel_masked (hop : ∀ a b, op (op a b) b = a) {plain : List α}
    (h : plain.length ≤ s.length) :
    streamPeel op zero w s (List.zipWith op plain (s.take plain.length) ++ fill) =
      plain ++ List.zipWith op (fill ++ List.replicate w zero) (s.drop plain.length) := by
  have hlen : plain.length = (s.take plain.length).length := by
    rw [List.length_take, Nat.min_eq_left h]
  have hstream : s = s.take plain.length ++ s.drop plain.length := (List.take_append_drop _ _).symm
  rw [streamPeel, List.append_assoc]
  nth_rewrite 2 [hstream]
  rw [List.zipWith_append, zipWith_cancel hop hlen.le]
  rw [List.length_zipWith, ← hlen, Nat.min_self]

/-- Covering returns a window of the length of the one it was given. -/
theorem streamCover_length (hs : s.length = N + w) (hblock : block.length = w)
    (hwindow : window.length = N) (hw : w ≤ N) :
    (streamCover op N w s block window).length = N := by
  simp only [streamCover, List.length_zipWith, List.length_append, List.length_take]
  omega

/-- The two parts of a filler step: the filler masked, and the zeros masked. -/
theorem fillerStep_eq (hfill : fill.length ≤ N) (hs : s.length = N + w) :
    fillerStep op zero N w fill s =
      List.zipWith op fill ((s.take N).drop (N - fill.length)) ++
        List.zipWith op (List.replicate w zero) (s.drop N) := by
  have hsplit : s.drop (N - fill.length) = (s.take N).drop (N - fill.length) ++ s.drop N := by
    rw [List.drop_take, show N - (N - fill.length) = fill.length by omega]
    conv_lhs => rw [← List.take_append_drop fill.length (s.drop (N - fill.length))]
    rw [List.drop_drop, show N - fill.length + fill.length = N by omega]
  rw [fillerStep, hsplit, List.zipWith_append]
  simp only [List.length_drop, List.length_take]
  omega

/-- **A layer over a window that ends with the next filler ends with the filler.** -/
theorem filler_suffix_streamCover (hop : ∀ a b, op (op a b) b = a) (hs : s.length = N + w)
    (hblock : block.length = w) (hwindow : window.length = N) (hfill : fill.length + w ≤ N)
    (h : fillerStep op zero N w fill s <:+ window) :
    fill <:+ streamCover op N w s block window := by
  obtain ⟨front, rfl⟩ := h
  rw [fillerStep_eq (by omega) hs, ← List.append_assoc] at hwindow ⊢
  set masked := List.zipWith op fill ((s.take N).drop (N - fill.length)) with hmasked
  have hmasked_len : masked.length = fill.length := by
    simp only [hmasked, List.length_zipWith, List.length_drop, List.length_take]
    omega
  have hfront : front.length + fill.length + w = N := by
    simp only [List.length_append, List.length_zipWith, List.length_replicate, List.length_drop,
      hmasked_len] at hwindow
    omega
  have htake : (front ++ masked ++ List.zipWith op (List.replicate w zero) (s.drop N)).take
      (N - w) = front ++ masked := by
    apply List.take_left'
    rw [List.length_append, hmasked_len]
    omega
  have hstream : s.take N = (s.take N).take (N - fill.length) ++
      (s.take N).drop (N - fill.length) := (List.take_append_drop _ _).symm
  rw [streamCover, htake, ← List.append_assoc, hstream, List.zipWith_append]
  · rw [hmasked, zipWith_cancel hop]
    · exact List.suffix_append _ _
    · simp only [List.length_drop, List.length_take]
      omega
  · simp only [List.length_append, List.length_take]
    omega

/-- **A layer is taken off** a window that was put on one that ends with the next filler. -/
theorem streamPeel_streamCover (hop : ∀ a b, op (op a b) b = a) (hs : s.length = N + w)
    (hblock : block.length = w) (hwindow : window.length = N) (hfill : fill.length + w ≤ N)
    (h : fillerStep op zero N w fill s <:+ window) :
    streamPeel op zero w s (streamCover op N w s block window) = block ++ window := by
  have htail : window.drop (N - w) = List.zipWith op (List.replicate w zero) (s.drop N) := by
    obtain ⟨front, rfl⟩ := h
    rw [fillerStep_eq (by omega) hs, ← List.append_assoc] at hwindow ⊢
    apply List.drop_left'
    simp only [List.length_append, List.length_zipWith, List.length_replicate,
      List.length_drop] at hwindow ⊢
    omega
  have hcover : (streamCover op N w s block window).length = N :=
    streamCover_length hs hblock hwindow (by omega)
  have hstream : s = s.take N ++ s.drop N := (List.take_append_drop N s).symm
  rw [streamPeel]
  nth_rewrite 2 [hstream]
  rw [List.zipWith_append, ← htail, streamCover, zipWith_cancel hop, List.append_assoc,
    List.take_append_drop]
  · simp only [List.length_append, List.length_take]
    omega
  · rw [hcover, List.length_take]
    omega

end Layer

section Tower

variable {κ τ : Type}

variable (op N w) in
/-- Put a layer on a window that is handed over with a tag.  The layer's block may hold the tag of
the window that it is put on, and the new window has a tag of its own. -/
def towerStep (block : κ → τ → List α) (tag : κ → List α → τ) (layer : κ × List α)
    (inner : List α × τ) : List α × τ :=
  let window := streamCover op N w layer.2 (block layer.1 inner.2) inner.1
  (window, tag layer.1 window)

variable (op N w) in
/-- Layers on a window, the first one outermost. -/
def tower (block : κ → τ → List α) (tag : κ → List α → τ) (layers : List (κ × List α))
    (core : List α × τ) : List α × τ :=
  layers.foldr (towerStep op N w block tag) core

variable {block : κ → τ → List α} {tag : κ → List α → τ} {layers : List (κ × List α)}
  {core : List α × τ}

/-- The first layer is outermost. -/
theorem tower_cons (layer : κ × List α) :
    tower op N w block tag (layer :: layers) core =
      towerStep op N w block tag layer (tower op N w block tag layers core) := rfl

/-- A tower is as long as its core. -/
theorem tower_length (hblock : ∀ k t, (block k t).length = w)
    (hlayers : ∀ layer ∈ layers, layer.2.length = N + w) (hcore : core.1.length = N)
    (hw : w ≤ N) : (tower op N w block tag layers core).1.length = N := by
  induction layers with
  | nil => exact hcore
  | cons layer layers ih =>
      have hrec := ih fun l hl => hlayers l (List.mem_cons_of_mem _ hl)
      exact streamCover_length (hlayers layer List.mem_cons_self) (hblock _ _) hrec hw

/-- INTERNAL: a tower ends with the filler of the layers above it. -/
theorem filler_suffix_tower (hop : ∀ a b, op (op a b) b = a)
    (hblock : ∀ k t, (block k t).length = w) {above : List (List α)}
    (habove : ∀ s ∈ above, s.length = N + w) (hlayers : ∀ layer ∈ layers, layer.2.length = N + w)
    (hcore : core.1.length = N) (hlen : (above.length + layers.length) * w ≤ N) (hw : w ≤ N)
    (h : filler op zero N w (above ++ layers.map Prod.snd) <:+ core.1) :
    filler op zero N w above <:+ (tower op N w block tag layers core).1 := by
  induction layers generalizing above with
  | nil => rwa [List.map_nil, List.append_nil] at h
  | cons layer layers ih =>
      have hs := hlayers layer List.mem_cons_self
      have hrest : ∀ l ∈ layers, l.2.length = N + w :=
        fun l hl => hlayers l (List.mem_cons_of_mem _ hl)
      have hrec : filler op zero N w (above ++ [layer.2]) <:+
          (tower op N w block tag layers core).1 := by
        apply ih _ hrest
        · rw [List.length_append, List.length_singleton]
          rwa [List.length_cons, ← add_assoc, add_right_comm] at hlen
        · rwa [List.append_assoc, List.singleton_append]
        · intro s hs'
          rcases List.mem_append.mp hs' with hs' | hs'
          · exact habove s hs'
          · exact List.mem_singleton.mp hs' ▸ hs
      rw [filler_append_singleton] at hrec
      have hwindow : (tower op N w block tag layers core).1.length = N :=
        tower_length hblock hrest hcore hw
      have hfill : (filler op zero N w above).length + w ≤ N := by
        rw [List.length_cons] at hlen
        have hle : (above.length + 1) * w ≤ N := le_trans (Nat.mul_le_mul_right w (by omega)) hlen
        rw [add_mul, one_mul] at hle
        rw [filler_length habove (by omega)]
        exact hle
      exact filler_suffix_streamCover hop hs (hblock _ _) hwindow hfill hrec

/-- **A tower is peeled layer by layer.**  Below any layers `above`, taking a layer off leaves its
block and the rest of the tower, when the core ends with the filler of all the layers. -/
theorem streamPeel_tower (tag : κ → List α → τ) (hop : ∀ a b, op (op a b) b = a)
    (hblock : ∀ k t, (block k t).length = w) {above : List (List α)}
    (habove : ∀ s ∈ above, s.length = N + w) {layer : κ × List α}
    (hs : layer.2.length = N + w) (hlayers : ∀ l ∈ layers, l.2.length = N + w)
    (hcore : core.1.length = N) (hlen : (above.length + (layers.length + 1)) * w ≤ N) (hw : w ≤ N)
    (h : filler op zero N w (above ++ layer.2 :: layers.map Prod.snd) <:+ core.1) :
    streamPeel op zero w layer.2 (tower op N w block tag (layer :: layers) core).1 =
      block layer.1 (tower op N w block tag layers core).2 ++
        (tower op N w block tag layers core).1 := by
  have hfull : ∀ t ∈ above ++ [layer.2], t.length = N + w := by
    intro t ht
    rcases List.mem_append.mp ht with ht | ht
    · exact habove t ht
    · exact List.mem_singleton.mp ht ▸ hs
  have hsuffix : filler op zero N w (above ++ [layer.2]) <:+
      (tower op N w block tag layers core).1 := by
    apply filler_suffix_tower hop hblock hfull hlayers hcore _ hw
    · rwa [List.append_assoc, List.singleton_append]
    · rwa [List.length_append, List.length_singleton, add_assoc, add_comm 1]
  rw [filler_append_singleton] at hsuffix
  have hwindow : (tower op N w block tag layers core).1.length = N :=
    tower_length hblock hlayers hcore hw
  have hle : (above.length + 1) * w ≤ N := le_trans (Nat.mul_le_mul_right w (by omega)) hlen
  rw [add_mul, one_mul] at hle
  have hfill : (filler op zero N w above).length + w ≤ N := by
    rw [filler_length habove (by omega)]
    exact hle
  exact streamPeel_streamCover hop hs (hblock _ _) hwindow hfill hsuffix

end Tower

end Library
