import TaniDVR.Lib.Framing

/-!
# Lib.Layers — a stream that is read through a buffer

What a reader has not read yet lies in three layers: in its buffer, in the source behind the buffer,
where it was received but not fetched, and on the way.  A read that finds enough in the buffer takes
from it (`take`); another one fetches, and may fetch more than it returns (`fetch`).  Both read the
stream in order: `read_append_flat`, `read_of_waits`.

Who looks at the source does not see what lies in the buffer.  A reader `Hides` a record that is whole
there while the source is empty; it comes to that by a refill that `Overlooks` the record
(`Hides.of_read`), and where records are read in order, such a refill hides it (`refill_hides`).
-/

namespace Lib

variable {α β : Type*}

/-- The layers of a stream. -/
structure Layers (β : Type*) where
  buffer : List β
  source : List β
  coming : List β

/-- What happens in a fetch. -/
structure Fetch where
  /-- how many elements arrive until it is served -/
  before : ℕ
  /-- it is not served before what it needs has arrived -/
  waits : Bool
  /-- how many elements it fetches in addition -/
  ahead : ℕ

namespace Layers

/-- The whole stream. -/
def flat (l : Layers β) : List β := l.buffer ++ (l.source ++ l.coming)

/-- `n` elements arrive. -/
def arrive (l : Layers β) (n : ℕ) : Layers β :=
  { l with source := l.source ++ l.coming.take n, coming := l.coming.drop n }

/-- `n` elements from the buffer. -/
def take (l : Layers β) (n : ℕ) : List β × Layers β :=
  (l.buffer.take n, { l with buffer := l.buffer.drop n })

/-- How many elements arrive until a fetch of `n` elements is served. -/
def arrivals (l : Layers β) (n : ℕ) (f : Fetch) : ℕ :=
  if f.waits then max f.before (n - (l.buffer.length + l.source.length)) else f.before

/-- The layers when a fetch of `n` elements is served. -/
def served (l : Layers β) (n : ℕ) (f : Fetch) : Layers β := l.arrive (l.arrivals n f)

/-- What was received by then. -/
def got (l : Layers β) (n : ℕ) (f : Fetch) : List β :=
  (l.served n f).buffer ++ (l.served n f).source

/-- `n` elements from the buffer and the source; up to `cap` more go to the buffer. -/
def fetch (cap : ℕ) (l : Layers β) (n : ℕ) (f : Fetch) : List β × Layers β :=
  ((l.got n f).take n,
    { buffer := ((l.got n f).drop n).take (min f.ahead cap)
      source := ((l.got n f).drop n).drop (min f.ahead cap)
      coming := (l.served n f).coming })

variable {l : Layers β} {n : ℕ} {f : Fetch}

/-! ### The stream -/

@[simp] theorem flat_arrive (l : Layers β) (n : ℕ) : (l.arrive n).flat = l.flat := by
  rw [flat, flat, arrive]
  dsimp only
  rw [List.append_assoc, List.take_append_drop]

theorem take_append_flat (l : Layers β) (n : ℕ) : (l.take n).1 ++ (l.take n).2.flat = l.flat := by
  rw [flat, flat, take]
  dsimp only
  rw [← List.append_assoc, List.take_append_drop]

theorem got_append_coming (l : Layers β) (n : ℕ) (f : Fetch) :
    l.got n f ++ (l.served n f).coming = l.flat := by
  rw [got, List.append_assoc, ← flat_arrive l (l.arrivals n f)]
  rfl

theorem fetch_append_flat (cap : ℕ) (l : Layers β) (n : ℕ) (f : Fetch) :
    (l.fetch cap n f).1 ++ (l.fetch cap n f).2.flat = l.flat := by
  rw [← got_append_coming l n f, flat, fetch]
  dsimp only
  rw [← List.append_assoc _ _ (l.served n f).coming, List.take_append_drop, ← List.append_assoc,
    List.take_append_drop]

/-- A fetch that waits gets what it needs, or all there is. -/
theorem length_got (hw : f.waits = true) : n ≤ (l.got n f).length ∨ (l.served n f).coming = [] := by
  unfold got served arrive arrivals
  rw [if_pos hw]
  dsimp only
  rw [List.length_append, List.length_append, List.length_take, List.drop_eq_nil_iff]
  omega

theorem length_fetch (cap : ℕ) (hw : f.waits = true) :
    (l.fetch cap n f).1.length = min n l.flat.length := by
  rw [← got_append_coming l n f, fetch]
  dsimp only
  rw [List.length_take, List.length_append]
  rcases length_got (l := l) (n := n) hw with hle | hnil
  · omega
  · rw [hnil, List.length_nil, Nat.add_zero]

end Layers

/-! ### The reader -/

/-- A buffered reader: the layers, how much it fetches ahead at most, and the coming fetches (they
wait when there are no more). -/
structure Reader (β : Type*) where
  layers : Layers β
  cap : ℕ
  fetches : List Fetch

/-- A refill of the buffer: what is in the source when the fetch is served, what the fetch leaves
there, and what is on the way. -/
structure Refill (β : Type*) where
  found : List β
  left : List β
  coming : List β

namespace Reader

/-- Nothing was read or has arrived. -/
def fresh (cap : ℕ) (fetches : List Fetch) (stream : List β) : Reader β :=
  ⟨⟨[], [], stream⟩, cap, fetches⟩

def arrive (r : Reader β) (n : ℕ) : Reader β := { r with layers := r.layers.arrive n }

/-- The next fetch. -/
def next (r : Reader β) : Fetch := r.fetches.headD ⟨0, true, 0⟩

/-- `n` elements are read. -/
def read (r : Reader β) (n : ℕ) : List β × Reader β :=
  if n ≤ r.layers.buffer.length then
    ((r.layers.take n).1, { r with layers := (r.layers.take n).2 })
  else
    ((r.layers.fetch r.cap n r.next).1,
      { r with layers := (r.layers.fetch r.cap n r.next).2, fetches := r.fetches.tail })

/-- The refill of a read of `n` elements. -/
def refill (r : Reader β) (n : ℕ) : Option (Refill β) :=
  if n ≤ r.layers.buffer.length then none
  else some ⟨(r.layers.served n r.next).source, (r.layers.fetch r.cap n r.next).2.source,
    (r.layers.served n r.next).coming⟩

variable {r : Reader β} {n : ℕ}

/-- **The stream is read in order**, whatever is returned. -/
theorem read_append_flat (r : Reader β) (n : ℕ) :
    (r.read n).1 ++ (r.read n).2.layers.flat = r.layers.flat := by
  unfold read
  by_cases h : n ≤ r.layers.buffer.length
  · rw [if_pos h]
    exact r.layers.take_append_flat n
  · rw [if_neg h]
    exact r.layers.fetch_append_flat r.cap n r.next

/-- All fetches wait. -/
def Waits (r : Reader β) : Prop := ∀ f ∈ r.fetches, f.waits = true

theorem Waits.next (h : r.Waits) : r.next.waits = true := by
  unfold Reader.next
  cases hf : r.fetches with
  | nil => rfl
  | cons f fs => exact h f (by rw [hf]; exact List.mem_cons_self)

theorem Waits.read (h : r.Waits) (n : ℕ) : (r.read n).2.Waits := by
  unfold Reader.read
  by_cases hn : n ≤ r.layers.buffer.length
  · rw [if_pos hn]
    exact h
  · rw [if_neg hn]
    exact fun f hf => h f (List.mem_of_mem_tail hf)

/-- **A reader whose fetches wait** gets the next `n` elements of the stream. -/
theorem read_of_waits (h : r.Waits) (n : ℕ) :
    (r.read n).1 = r.layers.flat.take n ∧ (r.read n).2.layers.flat = r.layers.flat.drop n := by
  have happ := read_append_flat r n
  have hlen : (r.read n).1.length = min n r.layers.flat.length := by
    unfold Reader.read
    by_cases hn : n ≤ r.layers.buffer.length
    · rw [if_pos hn]
      unfold Layers.take Layers.flat
      dsimp only
      rw [List.length_take, List.length_append]
      omega
    · rw [if_neg hn]
      exact Layers.length_fetch r.cap h.next
  rw [← happ] at hlen ⊢
  rw [List.length_append] at hlen
  by_cases hn : n ≤ (r.read n).1.length
  · have hn : (r.read n).1.length = n := by omega
    exact ⟨(List.take_left' hn).symm, (List.drop_left' hn).symm⟩
  · have hnil : (r.read n).2.layers.flat = [] := List.length_eq_zero_iff.mp (by omega)
    rw [hnil, List.append_nil]
    exact ⟨(List.take_of_length_le (by omega)).symm, (List.drop_eq_nil_of_le (by omega)).symm⟩

end Reader

/-! ### Records in the buffer -/

/-- A record of `ms` lies whole in `received`, behind which the stream goes on with `later`. -/
def Received (enc : α → List β) (ms : List α) (received later : List β) : Prop :=
  ∃ m post u v, m :: post <:+ ms ∧ received = u ++ (enc m ++ v) ∧ v ++ later = encode enc post

theorem Received.append {enc : α → List β} {ms : List α} {received later : List β}
    (h : Received enc ms received later) (front : List β) :
    Received enc ms (front ++ received) later := by
  obtain ⟨m, post, u, v, hm, rfl, hv⟩ := h
  exact ⟨m, post, front ++ u, v, hm, by rw [List.append_assoc], hv⟩

/-- A record is no longer than what it was received in. -/
theorem Received.exists_le {enc : α → List β} {ms : List α} {received later : List β}
    (h : Received enc ms received later) : ∃ m ∈ ms, (enc m).length ≤ received.length := by
  obtain ⟨m, post, u, v, hm, rfl, -⟩ := h
  refine ⟨m, hm.subset (by simp), ?_⟩
  simp only [List.length_append]
  omega

/-- Of the records that are read in order, one that was received whole behind the first element of
`found` lies behind the record whose rest is `x`. -/
theorem Received.behind {enc : α → List β} {ms post : List α} {m : α}
    {x buffer found coming : List β} (h : Received enc ms found.tail coming)
    (hne : ∀ m, enc m ≠ []) (hm : m :: post <:+ ms) (hx : x.length ≤ (enc m).length)
    (hflat : buffer ++ (found ++ coming) = x ++ encode enc post) :
    x.length ≤ (buffer ++ found).length ∧
      Received enc ms ((buffer ++ found).drop x.length) coming := by
  obtain ⟨m', post', u, v, hm', htail, hv⟩ := h
  -- it is not the record that is read
  have hshort : ¬ m :: post <:+ m' :: post' := by
    rintro ⟨ws, hws⟩
    have hlen := congrArg List.length (congrArg (encode enc) hws)
    have hpos := List.length_pos_of_ne_nil (hne m')
    have hfound := congrArg List.length htail
    have hflat := congrArg List.length hflat
    rw [encode_append, encode_cons, encode_cons, ← hv] at hlen
    simp only [List.length_append, List.length_tail] at hlen hfound hflat
    omega
  obtain ⟨ws, rfl⟩ : m' :: post' <:+ post := by
    rcases List.suffix_or_suffix_of_suffix hm' hm with hs | hs
    · rcases List.suffix_cons_iff.mp hs with heq | hs
      · exact absurd (heq ▸ List.suffix_rfl) hshort
      · exact hs
    · exact absurd hs hshort
  have hgot : buffer ++ found = x ++ (encode enc ws ++ (enc m' ++ v)) := by
    have hall : buffer ++ found ++ coming =
        x ++ (encode enc ws ++ (enc m' ++ v)) ++ coming := by
      rw [List.append_assoc, hflat, encode_append, encode_cons, ← hv]
      simp only [List.append_assoc]
    exact List.append_cancel_right hall
  rw [hgot, List.drop_left]
  exact ⟨by simp, m', post', encode enc ws, v, hm', rfl, hv⟩

/-- A refill overlooks a record: it leaves nothing in the source, where the record was whole, behind
the first element. -/
def Refill.Overlooks (enc : α → List β) (ms : List α) (f : Refill β) : Prop :=
  f.left = [] ∧ Received enc ms f.found.tail f.coming

namespace Reader

/-- The source is empty, and behind its first `k` elements the buffer holds a whole record. -/
structure HidesBehind (enc : α → List β) (ms : List α) (k : ℕ) (r : Reader β) : Prop where
  source : r.layers.source = []
  le : k ≤ r.layers.buffer.length
  record : Received enc ms (r.layers.buffer.drop k) r.layers.coming

/-- The source is empty, and the buffer holds a whole record. -/
def Hides (enc : α → List β) (ms : List α) (r : Reader β) : Prop :=
  r.layers.source = [] ∧ Received enc ms r.layers.buffer r.layers.coming

variable {enc : α → List β} {ms : List α} {r : Reader β} {f : Refill β} {n k : ℕ}

theorem refill_eq_some (h : r.refill n = some f) : r.layers.buffer.length < n ∧
    r.read n = ((r.layers.fetch r.cap n r.next).1,
      { r with layers := (r.layers.fetch r.cap n r.next).2, fetches := r.fetches.tail }) ∧
    f = ⟨(r.layers.served n r.next).source, (r.layers.fetch r.cap n r.next).2.source,
      (r.layers.served n r.next).coming⟩ := by
  unfold refill at h
  split_ifs at h with hn
  exact ⟨not_le.mp hn, by rw [read, if_neg hn], (Option.some.inj h).symm⟩

theorem Hides.of_arrive (h : (r.arrive n).Hides enc ms) :
    r.Hides enc ms ∧ r.layers.coming.take n = [] := by
  obtain ⟨hs, hr⟩ := h
  obtain ⟨hsource, hnone⟩ := List.append_eq_nil_iff.mp hs
  have hcoming : r.layers.coming.drop n = r.layers.coming := by
    have := List.take_append_drop n r.layers.coming
    rwa [hnone, List.nil_append] at this
  have hr : Received enc ms r.layers.buffer (r.layers.coming.drop n) := hr
  rw [hcoming] at hr
  exact ⟨⟨hsource, hr⟩, hnone⟩

/-- **What a read hides** was hidden before, or is overlooked by its refill. -/
theorem Hides.of_read (h : (r.read n).2.Hides enc ms) :
    (∃ f, r.refill n = some f ∧ f.Overlooks enc ms ∧ (r.read n).2.layers.coming = f.coming) ∨
      (r.Hides enc ms ∧ (r.read n).2.layers.coming = r.layers.coming) := by
  cases hf : r.refill n with
  | none =>
    have hn : n ≤ r.layers.buffer.length := by
      by_contra hn
      rw [refill, if_neg hn] at hf
      cases hf
    unfold Reader.read at h ⊢
    rw [if_pos hn] at h ⊢
    obtain ⟨hs, hr⟩ := h
    have hr : Received enc ms (r.layers.buffer.drop n) r.layers.coming := hr
    have hall := hr.append (r.layers.buffer.take n)
    rw [List.take_append_drop] at hall
    exact .inr ⟨⟨hs, hall⟩, rfl⟩
  | some f =>
    obtain ⟨hn, hread, rfl⟩ := refill_eq_some hf
    rw [hread] at h ⊢
    obtain ⟨hs, hr⟩ := h
    refine .inl ⟨_, rfl, ⟨hs, ?_⟩, rfl⟩
    have hs : ((r.layers.got n r.next).drop n).drop (min r.next.ahead r.cap) = [] := hs
    have hr : Received enc ms (((r.layers.got n r.next).drop n).take (min r.next.ahead r.cap))
      (r.layers.served n r.next).coming := hr
    rw [List.take_of_length_le (List.drop_eq_nil_iff.mp hs)] at hr
    -- behind the buffer at least one element of the source is asked for
    have hbuffer : (r.layers.served n r.next).buffer.length < n := hn
    have hdrop : (r.layers.got n r.next).drop n = ((r.layers.served n r.next).source.tail).drop
        (n - (r.layers.served n r.next).buffer.length - 1) := by
      rw [Layers.got, List.drop_append, List.drop_eq_nil_of_le hbuffer.le, List.nil_append,
        ← List.drop_one, List.drop_drop]
      congr 1
      omega
    rw [hdrop] at hr
    have hall := hr.append (((r.layers.served n r.next).source.tail).take
      (n - (r.layers.served n r.next).buffer.length - 1))
    rwa [List.take_append_drop] at hall

/-! ### Records that are read in order -/

theorem HidesBehind.hides (h : r.HidesBehind enc ms 0) : r.Hides enc ms := ⟨h.source, h.record⟩

/-- What is hidden behind `k` elements stays hidden while these are read. -/
theorem HidesBehind.read (h : r.HidesBehind enc ms k) (hn : n ≤ k) :
    (r.read n).2.HidesBehind enc ms (k - n) ∧
      (r.read n).2.layers.coming = r.layers.coming := by
  have hle : n ≤ r.layers.buffer.length := hn.trans h.le
  unfold Reader.read
  rw [if_pos hle]
  refine ⟨⟨h.source, ?_, ?_⟩, rfl⟩
  · show k - n ≤ (r.layers.buffer.drop n).length
    rw [List.length_drop]
    have := h.le
    omega
  · show Received enc ms ((r.layers.buffer.drop n).drop (k - n)) r.layers.coming
    rw [List.drop_drop, Nat.add_sub_cancel' hn]
    exact h.record

/-- **A refill that overlooks a record** while the rest `x` of another one is read hides it behind
this rest. -/
theorem refill_hides (hf : r.refill n = some f) (ho : f.Overlooks enc ms) (hne : ∀ m, enc m ≠ [])
    {m : α} {post : List α} {x : List β} (hm : m :: post <:+ ms) (hx : x.length ≤ (enc m).length)
    (hflat : r.layers.flat = x ++ encode enc post) (hn : n ≤ x.length) :
    (r.read n).2.HidesBehind enc ms (x.length - n) ∧ (r.read n).2.layers.coming = f.coming := by
  obtain ⟨-, hread, rfl⟩ := refill_eq_some hf
  rw [hread]
  obtain ⟨hleft, hr⟩ := ho
  have hall : (((r.layers.got n r.next).drop n).take (min r.next.ahead r.cap)) =
      (r.layers.got n r.next).drop n := List.take_of_length_le (List.drop_eq_nil_iff.mp hleft)
  have hstream : (r.layers.served n r.next).buffer ++ ((r.layers.served n r.next).source ++
      (r.layers.served n r.next).coming) = x ++ encode enc post := by
    rw [← hflat, ← Layers.got_append_coming r.layers n r.next, Layers.got, List.append_assoc]
  obtain ⟨hle, hrecord⟩ := hr.behind hne hm hx hstream
  have hle : x.length ≤ (r.layers.got n r.next).length := hle
  refine ⟨⟨hleft, ?_, ?_⟩, rfl⟩
  · show _ ≤ (((r.layers.got n r.next).drop n).take _).length
    rw [hall, List.length_drop]
    omega
  · show Received enc ms ((((r.layers.got n r.next).drop n).take _).drop (x.length - n)) _
    rw [hall, List.drop_drop, Nat.add_sub_cancel' hn]
    exact hrecord

end Reader

end Lib
