import PbdZmq.Models.Transfer.Buffers
import PbdZmq.Models.Transfer.Progress

/-!
# The bar along a transfer

Both loops count the bytes that they have transferred and divide them by the size of the
file, whether the progress is shown or not. The sender has the size of a file that may change
before it is read, and the receiver what the peer has announced. No transfer is so long that
the count, a 64-bit number, overflows.
-/

namespace PbdZmq.Transfer

/-- The arguments of `progress_update`. -/
structure Update where
  current : Nat
  total : RDouble
  ind : Int
  deriving DecidableEq, Repr

/-- How a loop ends, and the calls of `progress_update` until then. -/
structure Shown where
  outcome : Outcome
  updates : List Update
  deriving DecidableEq, Repr

/-- What stands before the rest of a loop. -/
def Shown.after (u : Update) (s : Shown) : Shown := ⟨s.outcome, u :: s.updates⟩

/-- `send_file` from the top of its loop, with the bytes counted so far. -/
def sendFileShown (filesize : RDouble) (ind : Int) (total_size : Nat) (f : InFile) :
    List Round → Shown
  | [] => ⟨.waiting, []⟩
  | r :: rs =>
    let (chunk, f) := fread f BUFLEN r.fault
    let total_size := total_size + chunk.length
    if chunk.length < BUFLEN ∧ f.eof = false then ⟨.raised, []⟩
    else if r.accepted then
      if chunk.length = BUFLEN then
        (sendFileShown filesize ind total_size f rs).after ⟨total_size, filesize, ind⟩
      else ⟨.returned, [⟨total_size, filesize, ind⟩]⟩
    else ⟨.raised, []⟩

/-- `recv_file` from the top of its loop, with the bytes counted so far. -/
def recvFileShown (filesize : RDouble) (ind : Int) (total_size : Nat) (f : OutFile) :
    List Delivery → Shown
  | [] => ⟨.waiting, []⟩
  | d :: ds =>
    match d.message with
    | none => ⟨.raised, []⟩
    | some m =>
      let expected_size := m.length
      let size := if BUFLEN < expected_size then BUFLEN else expected_size
      let total_size := total_size + size
      let (size, f) := f.fwrite (m.take size) d.fault d.flush
      if size < expected_size then ⟨.raised, []⟩
      else if size = BUFLEN then
        (recvFileShown filesize ind total_size f ds).after ⟨total_size, filesize, ind⟩
      else ⟨.returned, [⟨total_size, filesize, ind⟩]⟩

/-- A loop behind `progress_init`, if that returns within `fuel` tests. -/
def started (fuel : Nat) (verbose : Int) (total : RDouble) (loop : Int → Shown) : Option Shown :=
  (progress_init fuel verbose total).map fun r => loop r.1

/-- The loop of `zmq.sendfile`, for a file that had some size before its content was read. -/
def zmqSendfileShown (fuel : Nat) (verbose : Int) (size : Nat) (content : Bytes)
    (rs : List Round) : Option Shown :=
  started fuel verbose (.finite size) fun ind =>
    sendFileShown (.finite size) ind 0 ⟨content, false⟩ rs

/-- The loop of `zmq.recvfile`, with an announced size. -/
def zmqRecvfileShown (fuel : Nat) (verbose : Int) (filesize : RDouble) (ds : List Delivery) :
    Option Shown :=
  started fuel verbose filesize fun ind => recvFileShown filesize ind 0 .fopen ds

/-- The quotient has a divisor other than zero, and the length of the bar is a number up to
`PROGRESS_BARLEN` that is an `int` and drawn with no more characters. -/
structure Update.Defined (u : Update) : Prop where
  total_ne_zero : u.total ≠ .finite 0
  length_mem : ∃ q : ℚ, barLength u.current u.total = .finite q ∧ 0 ≤ q ∧ q ≤ PROGRESS_BARLEN
  drawn : ∃ len, (barLength u.current u.total).toInt = some len ∧
    (bar len).length ≤ PROGRESS_BARLEN

/-- In a run of `send_file` every `progress_update` is defined. -/
def SendDefined (verbose : Int) (size : Nat) (content : Bytes) (rs : List Round) : Prop :=
  ∀ fuel s, zmqSendfileShown fuel verbose size content rs = some s → ∀ u ∈ s.updates, u.Defined

/-- In a run of `recv_file` every `progress_update` is defined. -/
def RecvDefined (verbose : Int) (filesize : RDouble) (ds : List Delivery) : Prop :=
  ∀ fuel s, zmqRecvfileShown fuel verbose filesize ds = some s → ∀ u ∈ s.updates, u.Defined

/-- Some bytes are a part of a file of this size. None are a part of a negative one. -/
def Covers (total : RDouble) (n : Nat) : Prop :=
  match total with
  | .nan => False
  | .infinite _ => True
  | .finite q => (0 < q ∧ n ≤ q) ∨ (q < 0 ∧ n = 0)

/-- The sizes of the chunks that are read and accepted. -/
def sentSizes (f : InFile) : List Round → List Nat
  | [] => []
  | r :: rs =>
    let (chunk, f) := fread f BUFLEN r.fault
    if (chunk.length < BUFLEN ∧ f.eof = false) ∨ r.accepted = false then []
    else if chunk.length = BUFLEN then chunk.length :: sentSizes f rs
    else [chunk.length]

/-- The sizes of the messages that are received and written in full, up to the first short
one. -/
def takenSizes : List Delivery → List Nat
  | [] => []
  | d :: ds =>
    match d.message with
    | none => []
    | some m =>
      if m.length ≤ BUFLEN ∧ Transfer.fwrite m d.fault = m.length then
        if m.length < BUFLEN then [m.length] else m.length :: takenSizes ds
      else []

/-- The counts behind each of some sizes. -/
def runningTotals : Nat → List Nat → List Nat
  | _, [] => []
  | n, k :: ks => (n + k) :: runningTotals (n + k) ks

/-- What is inherited by smaller counts holds of all counts if it holds of the last one. -/
theorem forall_runningTotals_iff {P : Nat → Prop} (h : ∀ m n, m ≤ n → P n → P m) (n : Nat)
    (ks : List Nat) : (∀ c ∈ runningTotals n ks, P c) ↔ (ks ≠ [] → P (n + ks.sum)) := by
  induction ks generalizing n with
  | nil => simp [runningTotals]
  | cons k ks ih =>
    rw [runningTotals, List.forall_mem_cons, ih, List.sum_cons, ← Nat.add_assoc]
    constructor
    · rintro ⟨hfirst, hrest⟩ -
      cases ks with
      | nil => exact hfirst
      | cons j ks => exact hrest (List.cons_ne_nil j ks)
    · intro hlast
      have hall := hlast (List.cons_ne_nil k ks)
      exact ⟨h _ _ (Nat.le_add_right _ _) hall, fun _ => hall⟩

/-- A size covers fewer bytes, too. -/
theorem Covers.mono {total : RDouble} {m n : Nat} (hle : m ≤ n) (h : Covers total n) :
    Covers total m := by
  cases total with
  | nan => exact h
  | infinite => trivial
  | finite q =>
    rcases h with ⟨hpos, hn⟩ | ⟨hneg, hn⟩
    · exact .inl ⟨hpos, (Nat.cast_le.mpr hle).trans hn⟩
    · exact .inr ⟨hneg, by omega⟩

/-- The size of a file covers a part of it, if it is not empty. -/
theorem covers_natCast (size n : Nat) : Covers (.finite size) n ↔ 0 < size ∧ n ≤ size := by
  have hneg : ¬ (size : ℚ) < 0 := not_lt.mpr (Nat.cast_nonneg size)
  rw [Covers, Nat.cast_pos, Nat.cast_le, or_iff_left fun h => hneg h.1]

/-- A bar within its length has at most `PROGRESS_BARLEN` characters. -/
theorem length_bar_le {len : Int} (h : 0 ≤ len) (hle : len ≤ PROGRESS_BARLEN) :
    (bar len).length ≤ PROGRESS_BARLEN := by
  rw [bar, List.length_append, List.length_replicate, List.length_replicate]
  omega

/-- A length within the bar is drawn. -/
theorem Update.defined_of_length {u : Update} {q : ℚ} (hzero : u.total ≠ .finite 0)
    (hlength : barLength u.current u.total = .finite q) (h : 0 ≤ q) (hle : q ≤ PROGRESS_BARLEN) :
    u.Defined := by
  have hint := RDouble.toInt_of_le h hle (by decide)
  have hlow : 0 ≤ ⌊q⌋ := Int.floor_nonneg.mpr h
  have hhigh : ⌊q⌋ ≤ PROGRESS_BARLEN := by
    have hfloor := (Int.floor_le q).trans hle
    exact_mod_cast hfloor
  exact ⟨hzero, ⟨q, hlength, h, hle⟩, ⌊q⌋, by rw [hlength, hint], length_bar_le hlow hhigh⟩

/-- A `progress_update` that is defined prints its bar, or nothing. -/
theorem Update.Defined.isSome_progress_update {u : Update} (h : u.Defined) (verbose : Int) :
    (progress_update verbose u.current u.total u.ind).isSome = true := by
  obtain ⟨len, hlen, -⟩ := h.drawn
  rw [progress_update, hlen]
  rfl

/-- The length is within the bar exactly if the bytes are a part of the size. -/
theorem length_mem_iff {q : ℚ} (hzero : q ≠ 0) (n : Nat) :
    (0 ≤ (PROGRESS_BARLEN : ℚ) * (n / q) ∧ (PROGRESS_BARLEN : ℚ) * (n / q) ≤ PROGRESS_BARLEN) ↔
      Covers (.finite q) n := by
  have hbar : (0 : ℚ) < PROGRESS_BARLEN := Nat.cast_pos.mpr (by decide)
  have hn : (0 : ℚ) ≤ n := Nat.cast_nonneg n
  rw [mul_nonneg_iff_of_pos_left hbar, mul_le_iff_le_one_right hbar]
  rcases lt_or_gt_of_ne hzero with hneg | hpos
  · constructor
    · rintro ⟨hquotient, -⟩
      have hquotient' : (n : ℚ) / q = 0 :=
        le_antisymm (div_nonpos_of_nonneg_of_nonpos hn hneg.le) hquotient
      have hcast : (n : ℚ) = 0 := (div_eq_zero_iff.mp hquotient').resolve_right hzero
      exact .inr ⟨hneg, Nat.cast_eq_zero.mp hcast⟩
    · rintro (⟨hpos, -⟩ | ⟨-, rfl⟩)
      · exact absurd hpos (not_lt.mpr hneg.le)
      · simp
  · rw [div_le_one hpos]
    constructor
    · rintro ⟨-, hle⟩
      exact .inl ⟨hpos, hle⟩
    · rintro (⟨-, hle⟩ | ⟨hneg, -⟩)
      · exact ⟨div_nonneg hn hpos.le, hle⟩
      · exact absurd hneg (not_lt.mpr hpos.le)

/-- A `progress_update` is defined exactly if the bytes are a part of the size. -/
theorem Update.defined_iff (u : Update) : u.Defined ↔ Covers u.total u.current := by
  obtain ⟨current, total, ind⟩ := u
  cases total with
  | nan =>
    refine iff_of_false (fun h => ?_) id
    obtain ⟨q, hq, -⟩ := h.length_mem
    contradiction
  | infinite negative =>
    refine iff_of_true ?_ trivial
    have hlength : barLength current (.infinite negative) = .finite (PROGRESS_BARLEN * 0) := rfl
    exact Update.defined_of_length (by simp) hlength (by simp) (by simp)
  | finite q =>
    by_cases hzero : q = 0
    · subst hzero
      exact iff_of_false (fun h => h.total_ne_zero rfl) (by simp [Covers])
    · have hlength : barLength current (.finite q) = .finite (PROGRESS_BARLEN * (current / q)) := by
        rw [barLength, RDouble.div_finite _ hzero]
        rfl
      rw [← length_mem_iff hzero]
      constructor
      · intro h
        obtain ⟨length, hlength', hmem⟩ := h.length_mem
        obtain rfl : PROGRESS_BARLEN * (current / q) = length :=
          RDouble.finite.inj (hlength.symm.trans hlength')
        exact hmem
      · rintro ⟨hlow, hhigh⟩
        exact Update.defined_of_length (by simpa using hzero) hlength hlow hhigh

/-- The updates of a loop are defined exactly if the size covers the bytes that it counts. -/
theorem forall_updates_iff (total : RDouble) (ind : Int) (sizes : List Nat) :
    (∀ u ∈ (runningTotals 0 sizes).map fun n => (⟨n, total, ind⟩ : Update), u.Defined) ↔
      (sizes ≠ [] → Covers total sizes.sum) := by
  rw [List.forall_mem_map]
  simp only [Update.defined_iff]
  rw [forall_runningTotals_iff (fun _ _ => Covers.mono) 0 sizes, Nat.zero_add]

/-- So are they behind `progress_init`, which returns except for an infinite size. -/
theorem started_iff {verbose : Int} {total : RDouble} {sizes : List Nat} {loop : Int → Shown}
    (hloop : ∀ ind, (loop ind).updates = (runningTotals 0 sizes).map fun n => ⟨n, total, ind⟩) :
    (∀ fuel s, started fuel verbose total loop = some s → ∀ u ∈ s.updates, u.Defined) ↔
      (sizes ≠ [] → Covers total sizes.sum) := by
  constructor
  · intro hall hsizes
    by_cases hinfinite : total = .infinite false
    · subst hinfinite
      trivial
    · obtain ⟨fuel, r, hr⟩ := progress_init_isSome verbose hinfinite
      have hstarted := hall fuel (loop r.1) (by rw [started, hr, Option.map_some])
      rw [hloop] at hstarted
      exact (forall_updates_iff _ _ _).mp hstarted hsizes
  · rintro hcovers fuel s hs
    obtain ⟨r, -, rfl⟩ := Option.map_eq_some_iff.mp hs
    rw [hloop]
    exact (forall_updates_iff _ _ _).mpr hcovers

/-- Where the units suffice for a size, all updates of a loop name one of them. -/
theorem started_named {total : RDouble} (h : NamesUnits total) {verbose : Int}
    (hverbose : verbose ≠ 0) {sizes : List Nat} {loop : Int → Shown}
    (hloop : ∀ ind, (loop ind).updates = (runningTotals 0 sizes).map fun n => ⟨n, total, ind⟩)
    {fuel : Nat} {s : Shown} (hs : started fuel verbose total loop = some s) :
    ∀ u ∈ s.updates, memname u.ind ≠ none := by
  obtain ⟨r, hr, rfl⟩ := Option.map_eq_some_iff.mp hs
  obtain ⟨fuel', ind, shown, hresult, hrange, -⟩ := h verbose hverbose
  obtain rfl := progress_init_unique hresult hr
  rw [hloop, List.forall_mem_map]
  exact fun _ _ => memname_ne_none hrange

/-- `send_file` counts the chunks that are read and accepted. -/
theorem updates_sendFileShown (filesize : RDouble) (ind : Int) (n : Nat) (f : InFile)
    (rs : List Round) : (sendFileShown filesize ind n f rs).updates =
      (runningTotals n (sentSizes f rs)).map fun n => ⟨n, filesize, ind⟩ := by
  induction rs generalizing n f with
  | nil => rfl
  | cons r rs ih =>
    rw [sendFileShown, sentSizes]
    generalize fread f BUFLEN r.fault = result
    obtain ⟨chunk, f⟩ := result
    simp only
    by_cases hshort : chunk.length < BUFLEN ∧ f.eof = false
    · rw [if_pos hshort, if_pos (.inl hshort)]
      rfl
    · by_cases ha : r.accepted = true
      · have hsent : ¬ ((chunk.length < BUFLEN ∧ f.eof = false) ∨ r.accepted = false) := by
          simp [hshort, ha]
        rw [if_neg hshort, if_pos ha, if_neg hsent]
        by_cases hfull : chunk.length = BUFLEN
        · rw [if_pos hfull, if_pos hfull, Shown.after, ih]
          rfl
        · rw [if_neg hfull, if_neg hfull]
          rfl
      · rw [if_neg hshort, if_neg ha, if_pos (.inr (Bool.eq_false_of_not_eq_true ha))]
        rfl

/-- A message that is taken is counted. -/
theorem recvFileShown_of_taken {d : Delivery} {m : Bytes} (h : d.Taken m) (filesize : RDouble)
    (ind : Int) (n : Nat) (f : OutFile) (ds : List Delivery) :
    recvFileShown filesize ind n f (d :: ds) =
      if m.length = BUFLEN then
        (recvFileShown filesize ind (n + m.length) (f.put m d.flush) ds).after
          ⟨n + m.length, filesize, ind⟩
      else ⟨.returned, [⟨n + m.length, filesize, ind⟩]⟩ := by
  obtain ⟨hd, hle, hall⟩ := h
  simp only [recvFileShown, hd, if_neg (Nat.not_lt.mpr hle), OutFile.fwrite, List.take_length,
    hall, lt_irrefl, if_false]

/-- Any other round ends the loop in an error. -/
theorem recvFileShown_of_not_taken {d : Delivery} (h : ∀ m, ¬ d.Taken m) (filesize : RDouble)
    (ind : Int) (n : Nat) (f : OutFile) (ds : List Delivery) :
    recvFileShown filesize ind n f (d :: ds) = ⟨.raised, []⟩ := by
  cases hd : d.message with
  | none => simp only [recvFileShown, hd]
  | some m =>
    have hlt := fwrite_lt_of_not_taken hd h
    simp only [recvFileShown, hd, OutFile.fwrite, take_size, if_pos hlt]

theorem takenSizes_of_taken {d : Delivery} {m : Bytes} (h : d.Taken m) (ds : List Delivery) :
    takenSizes (d :: ds) =
      if m.length = BUFLEN then m.length :: takenSizes ds else [m.length] := by
  obtain ⟨hd, hle, hall⟩ := h
  simp only [takenSizes, hd, hle, hall, and_self, if_true]
  by_cases hfull : m.length = BUFLEN
  · rw [if_neg (by omega), if_pos hfull]
  · rw [if_pos (by omega), if_neg hfull]

theorem takenSizes_of_not_taken {d : Delivery} (h : ∀ m, ¬ d.Taken m) (ds : List Delivery) :
    takenSizes (d :: ds) = [] := by
  rcases Delivery.cases_of_not_taken h with hd | ⟨m, hd, hnot⟩
  · simp only [takenSizes, hd]
  · simp only [takenSizes, hd, if_neg hnot]

/-- `recv_file` counts the messages that are received and written in full. -/
theorem updates_recvFileShown (filesize : RDouble) (ind : Int) (n : Nat) (f : OutFile)
    (ds : List Delivery) : (recvFileShown filesize ind n f ds).updates =
      (runningTotals n (takenSizes ds)).map fun n => ⟨n, filesize, ind⟩ := by
  induction ds using deliveries_induction generalizing n f with
  | nil => rfl
  | stop d ds hnot =>
    rw [recvFileShown_of_not_taken hnot, takenSizes_of_not_taken hnot]
    rfl
  | last d m ds hm hlt =>
    rw [recvFileShown_of_taken hm, takenSizes_of_taken hm, if_neg (Nat.ne_of_lt hlt),
      if_neg (Nat.ne_of_lt hlt)]
    rfl
  | chunk d m ds hm hfull ih =>
    rw [recvFileShown_of_taken hm, takenSizes_of_taken hm, if_pos hfull, if_pos hfull,
      Shown.after, ih]
    rfl

/-- No transfer of a file reads outside of the units while it shows its progress. -/
theorem zmqSendfileShown_named {verbose : Int} (hverbose : verbose ≠ 0) {size : Nat}
    (hsize : size < 2 ^ 64) {fuel : Nat} {content : Bytes} {rs : List Round} {s : Shown}
    (hs : zmqSendfileShown fuel verbose size content rs = some s) :
    ∀ u ∈ s.updates, memname u.ind ≠ none :=
  started_named (namesUnits_size hsize) hverbose
    (fun ind => updates_sendFileShown _ ind 0 ⟨content, false⟩ rs) hs

/-- Neither does a receiver that was announced a size for which they suffice. -/
theorem zmqRecvfileShown_named {verbose : Int} (hverbose : verbose ≠ 0) {filesize : RDouble}
    (h : NamesUnits filesize) {fuel : Nat} {ds : List Delivery} {s : Shown}
    (hs : zmqRecvfileShown fuel verbose filesize ds = some s) :
    ∀ u ∈ s.updates, memname u.ind ≠ none :=
  started_named h hverbose (fun ind => updates_recvFileShown filesize ind 0 .fopen ds) hs

/-- The sending loop ends as before. -/
theorem outcome_sendFileShown (t : SocketType) (filesize : RDouble) (ind : Int) (n : Nat)
    (f : InFile) (rs : List Round) :
    (sendFileShown filesize ind n f rs).outcome = (send_file t f rs).outcome := by
  induction rs generalizing n f with
  | nil => rfl
  | cons r rs ih =>
    rw [sendFileShown, send_file]
    generalize fread f BUFLEN r.fault = result
    obtain ⟨chunk, f⟩ := result
    simp only
    split
    · rfl
    · split
      · split
        · exact ih _ _
        · rfl
      · rfl

/-- So does the receiving loop. -/
theorem outcome_recvFileShown (filesize : RDouble) (ind : Int) (n : Nat) (f : OutFile)
    (ds : List Delivery) :
    (recvFileShown filesize ind n f ds).outcome = (recv_file f ds).outcome := by
  induction ds using deliveries_induction generalizing n f with
  | nil => rfl
  | stop d ds hnot => rw [recvFileShown_of_not_taken hnot, recv_file_of_not_taken hnot]
  | last d m ds hm hlt =>
    rw [recvFileShown_of_taken hm, recv_file_of_taken hm, if_neg (Nat.ne_of_lt hlt),
      if_neg (Nat.ne_of_lt hlt)]
  | chunk d m ds hm hfull ih =>
    rw [recvFileShown_of_taken hm, recv_file_of_taken hm, if_pos hfull, if_pos hfull]
    exact ih _ _

/-- While sending, the updates are defined exactly if the size is not zero and not exceeded. -/
theorem sendDefined_iff (verbose : Int) (size : Nat) (content : Bytes) (rs : List Round) :
    SendDefined verbose size content rs ↔ (sentSizes ⟨content, false⟩ rs ≠ [] →
      0 < size ∧ (sentSizes ⟨content, false⟩ rs).sum ≤ size) := by
  rw [← covers_natCast]
  exact started_iff fun ind => updates_sendFileShown (.finite size) ind 0 ⟨content, false⟩ rs

/-- While receiving, they are defined exactly if the announced size covers what is taken. -/
theorem recvDefined_iff (verbose : Int) (filesize : RDouble) (ds : List Delivery) :
    RecvDefined verbose filesize ds ↔
      (takenSizes ds ≠ [] → Covers filesize (takenSizes ds).sum) :=
  started_iff fun ind => updates_recvFileShown filesize ind 0 .fopen ds

/-- A read takes its bytes from the file. -/
theorem length_fread (f : InFile) (n : Nat) (fault : Option Nat) :
    (fread f n fault).1.length + (fread f n fault).2.rest.length = f.rest.length := by
  have hsplit : ∀ k, (f.rest.take k).length + (f.rest.drop k).length = f.rest.length := by
    intro k
    rw [← List.length_append, List.take_append_drop]
  unfold fread
  split
  · split
    · exact hsplit _
    · exact hsplit n
  · exact hsplit n

/-- No more is sent than the file holds. -/
theorem sum_sentSizes_le (f : InFile) (rs : List Round) :
    (sentSizes f rs).sum ≤ f.rest.length := by
  induction rs generalizing f with
  | nil => exact Nat.zero_le _
  | cons r rs ih =>
    have hread := length_fread f BUFLEN r.fault
    have hrest := ih (fread f BUFLEN r.fault).2
    simp only [sentSizes]
    split
    · exact Nat.zero_le _
    · split
      · rw [List.sum_cons]
        omega
      · rw [List.sum_singleton]
        omega

/-- For a file that does not change, the updates are defined unless it is empty. -/
theorem sendDefined_unchanged (verbose : Int) (content : Bytes) (rs : List Round) :
    SendDefined verbose content.length content rs ↔
      (sentSizes ⟨content, false⟩ rs ≠ [] → content ≠ []) := by
  have hle := sum_sentSizes_le ⟨content, false⟩ rs
  rw [sendDefined_iff, and_iff_left hle, List.length_pos_iff]

/-- The sizes of a whole stream are those of its messages. -/
theorem takenSizes_of_wholeStream {ds : List Delivery} {ms : List Bytes}
    (h : wholeStream ds = some ms) : takenSizes ds = ms.map List.length := by
  induction ds generalizing ms with
  | nil => contradiction
  | cons d ds ih =>
    obtain ⟨m, hm, ⟨hfull, rest, hrest, rfl⟩ | ⟨hshort, rfl⟩⟩ := wholeStream_cons h
    · rw [takenSizes_of_taken hm, if_pos hfull, ih hrest, List.map_cons]
    · rw [takenSizes_of_taken hm, if_neg (Nat.ne_of_lt hshort)]
      rfl

/-- With the size of a whole stream announced, the updates are defined unless it is empty. -/
theorem recvDefined_wholeStream (verbose : Int) {ds : List Delivery} {ms : List Bytes}
    (h : wholeStream ds = some ms) :
    RecvDefined verbose (.finite ms.flatten.length) ds ↔ ms.flatten ≠ [] := by
  have hsum : (takenSizes ds).sum = ms.flatten.length := by
    rw [takenSizes_of_wholeStream h, List.length_flatten]
  have hsizes : takenSizes ds ≠ [] := by
    rw [takenSizes_of_wholeStream h]
    cases ds with
    | nil => contradiction
    | cons d ds =>
      obtain ⟨m, -, ⟨-, rest, -, rfl⟩ | ⟨-, rfl⟩⟩ := wholeStream_cons h
      · exact List.cons_ne_nil _ _
      · exact List.cons_ne_nil _ _
  rw [recvDefined_iff, hsum, forall_prop_of_true hsizes, covers_natCast, and_iff_left le_rfl,
    List.length_pos_iff]

/-- The arithmetic of the bar is defined in a run of either loop exactly if the size covers the
bytes of the chunks that it has sent or taken. -/
theorem updatesDefined_iff (verbose : Int) :
    (∀ size content rs, SendDefined verbose size content rs ↔
      (sentSizes ⟨content, false⟩ rs ≠ [] →
        0 < size ∧ (sentSizes ⟨content, false⟩ rs).sum ≤ size)) ∧
    ∀ filesize ds, RecvDefined verbose filesize ds ↔
      (takenSizes ds ≠ [] → Covers filesize (takenSizes ds).sum) :=
  ⟨sendDefined_iff verbose, recvDefined_iff verbose⟩

/-- An empty file is one chunk of no bytes, which are divided by zero. -/
theorem empty_file : ¬ SendDefined 0 0 [] [⟨none, true⟩] ∧
    ¬ RecvDefined 0 (.finite 0) [⟨some [], none, ⟨0, false⟩, false⟩] := by
  constructor
  · intro hdefined
    exact (hdefined 0 _ rfl ⟨0, .finite 0, -1⟩ (List.mem_singleton_self _)).total_ne_zero rfl
  · intro hdefined
    exact (hdefined 0 _ rfl ⟨0, .finite 0, -1⟩ (List.mem_singleton_self _)).total_ne_zero rfl

end PbdZmq.Transfer
