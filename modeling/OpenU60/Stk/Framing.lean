/-
  OpenU60.Stk.Framing — records of the RIL socket, out of whatever reads the bytes come in
  (`zte-agent/src/stk/mod.rs`: `read_socket`).

  The session is any state and `handle` is what `frame` makes of a record: the worker's own is
  `Session.handle`, and with a counter for the state it is a list of outcomes, whatever else happens
  between the reads. `run` reads until something ends the session. `drain` is the loop over the buffer.
  - `drain_append`: what comes later makes no difference to the records that are there.
  - `drain_records`: records with their lengths and what is left are what was in the buffer.
  - `run_drain`: reads in pieces are the loop over all the bytes at once.
  - `read_socket_split`: so two ways of splitting a stream dispatch the same frames and end the same way.
-/

import OpenU60.Stk.Session

namespace OpenU60.Stk

open OpenU60.Lib

variable {σ : Type}

/-- What the loop leaves, with the frames it gave away. -/
structure Drained (σ : Type) where
  session : σ
  dispatched : List Bytes
  buffer : Bytes
  err : Option String

def Drained.after (d : Drained σ) (frames : List Bytes) : Drained σ := { d with dispatched := frames ++ d.dispatched }

/-- The loop over complete records; each takes eight bytes at least. -/
def drainFrom (handle : σ → Bytes → σ × Option String) : Nat → σ → Bytes → Drained σ
  | 0, s, buffer => ⟨s, [], buffer, none⟩
  | fuel + 1, s, buffer =>
    if buffer.length < 4 then ⟨s, [], buffer, none⟩
    else
      match Session.number buffer 0 with
      | .error e => ⟨s, [], buffer, some e⟩
      | .ok n =>
        if ¬ (4 ≤ n ∧ n ≤ 65536) then ⟨s, [], buffer, some "invalid RIL record length"⟩
        else if buffer.length < n + 4 then ⟨s, [], buffer, none⟩
        else
          let frame := (buffer.drop 4).take n
          match handle s frame with
          | (s, some e) => ⟨s, [frame], buffer.drop (n + 4), some e⟩
          | (s, none) => (drainFrom handle fuel s (buffer.drop (n + 4))).after [frame]

def drain (handle : σ → Bytes → σ × Option String) (s : σ) (buffer : Bytes) : Drained σ := drainFrom handle buffer.length s buffer

/-- What `read` gives: bytes (none of them at the end of the stream), nothing for now, or an error. -/
inductive Read where
  | ok (bytes : Bytes)
  | again
  | failed (e : String)

def readSocket (handle : σ → Bytes → σ × Option String) (s : σ) (buffer : Bytes) : Read → Drained σ
  | .ok bytes => if bytes.isEmpty then ⟨s, [], buffer, some "RIL socket disconnected"⟩ else drain handle s (buffer ++ bytes)
  | .again => drain handle s buffer
  | .failed e => ⟨s, [], buffer, some ("RIL read failed: " ++ e)⟩

/-- The worker reads on until an error ends the session; and the reads that are left then. -/
def run (handle : σ → Bytes → σ × Option String) (s : σ) (buffer : Bytes) : List Read → Drained σ × List Read
  | [] => (⟨s, [], buffer, none⟩, [])
  | read :: reads =>
    let d := readSocket handle s buffer read
    match d.err with
    | some _ => (d, reads)
    | none =>
      let r := run handle d.session d.buffer reads
      (r.1.after d.dispatched, r.2)

/-- `frame` of the worker's session; what a write gives and the clock, for each record in turn. -/
def Session.handle (world : Nat → Option String × Nat) (s : Session × Log × Nat) (frame : Bytes) : (Session × Log × Nat) × Option String :=
  let r := s.1.frame s.2.1 frame (world s.2.2).1 (world s.2.2).2
  ((r.session, r.log, s.2.2 + 1), r.err)

/-! ## The stream -/

/-- The bytes that reads bring, up to the end of the stream or an error. -/
def received : List Read → Bytes
  | [] => []
  | .ok bytes :: reads => if bytes.isEmpty then [] else bytes ++ received reads
  | .again :: reads => received reads
  | .failed _ :: _ => []

/-- What the stream ends with. -/
def ending : List Read → Option String
  | [] => none
  | .ok bytes :: reads => if bytes.isEmpty then some "RIL socket disconnected" else ending reads
  | .again :: reads => ending reads
  | .failed e :: _ => some ("RIL read failed: " ++ e)

/-- A frame with its length before it. -/
def record (frame : Bytes) : Bytes := BigEndian.toBytes 4 frame.length ++ frame

/-- Not enough for a record, of a length that is allowed. -/
def Waits (buffer : Bytes) : Prop :=
  buffer.length < 4 ∨ ∃ n, Session.number buffer 0 = .ok n ∧ 4 ≤ n ∧ n ≤ 65536 ∧ buffer.length < n + 4

/-- A length that is not. -/
def TooLong (buffer : Bytes) : Prop := ∃ n, Session.number buffer 0 = .ok n ∧ ¬ (4 ≤ n ∧ n ≤ 65536)

/-! ## The loop -/

variable {handle : σ → Bytes → σ × Option String}

theorem number_of_long {buffer : Bytes} (h : ¬ buffer.length < 4) : Session.number buffer 0 = .ok (BigEndian.ofBytes (buffer.take 4)) := by
  rw [Session.number, if_neg h, List.drop_zero]

theorem length_record (frame : Bytes) : (record frame).length = frame.length + 4 := by
  rw [record, List.length_append, BigEndian.length_toBytes, Nat.add_comm]

theorem number_record {frame : Bytes} (h : frame.length ≤ 65536) (rest : Bytes) : Session.number (record frame ++ rest) 0 = .ok frame.length := by
  have hlong : ¬ (record frame ++ rest).length < 4 := by
    rw [List.length_append, length_record]
    omega
  have hheader : (record frame ++ rest).take 4 = BigEndian.toBytes 4 frame.length := by
    rw [record, List.append_assoc]
    exact List.take_left' (BigEndian.length_toBytes ..)
  rw [number_of_long hlong, hheader, BigEndian.ofBytes_toBytes, Nat.mod_eq_of_lt (by omega)]

/-- What the buffer begins with. -/
theorem buffer_cases (buffer : Bytes) : Waits buffer ∨ TooLong buffer ∨
    ∃ frame rest, buffer = record frame ++ rest ∧ 4 ≤ frame.length ∧ frame.length ≤ 65536 := by
  by_cases hshort : buffer.length < 4
  · exact .inl (.inl hshort)
  · have hnumber := number_of_long hshort
    by_cases hallowed : 4 ≤ BigEndian.ofBytes (buffer.take 4) ∧ BigEndian.ofBytes (buffer.take 4) ≤ 65536
    · by_cases hwhole : buffer.length < BigEndian.ofBytes (buffer.take 4) + 4
      · exact .inl (.inr ⟨_, hnumber, hallowed.1, hallowed.2, hwhole⟩)
      · have hframe : ((buffer.drop 4).take (BigEndian.ofBytes (buffer.take 4))).length = BigEndian.ofBytes (buffer.take 4) := by
          rw [List.length_take, List.length_drop]
          omega
        have htake : (buffer.take 4).length = 4 := List.length_take_of_le (by omega)
        refine .inr (.inr ⟨(buffer.drop 4).take (BigEndian.ofBytes (buffer.take 4)), (buffer.drop 4).drop (BigEndian.ofBytes (buffer.take 4)), ?_, ?_⟩)
        · have hheader := BigEndian.toBytes_ofBytes (buffer.take 4)
          rw [htake] at hheader
          rw [record, hframe, hheader, List.append_assoc, List.take_append_drop, List.take_append_drop]
        · rw [hframe]
          exact hallowed
    · exact .inr (.inl ⟨_, hnumber, hallowed⟩)

theorem drainFrom_waits {buffer : Bytes} (h : Waits buffer) (fuel : Nat) (s : σ) : drainFrom handle fuel s buffer = ⟨s, [], buffer, none⟩ := by
  cases fuel with
  | zero => rfl
  | succ fuel =>
    unfold drainFrom
    rcases h with hshort | ⟨n, hnumber, hmin, hmax, hpart⟩
    · rw [if_pos hshort]
    · have hallowed : ¬ ¬ (4 ≤ n ∧ n ≤ 65536) := not_not.mpr ⟨hmin, hmax⟩
      rw [hnumber]
      dsimp only
      rw [if_neg hallowed, if_pos hpart, ite_self]

theorem number_length {buffer : Bytes} {n : Nat} (h : Session.number buffer 0 = .ok n) : 4 ≤ buffer.length := by
  unfold Session.number at h
  split at h
  · cases h
  · omega

theorem drainFrom_tooLong {buffer : Bytes} (h : TooLong buffer) {fuel : Nat} (hfuel : buffer.length ≤ fuel) (s : σ) :
    drainFrom handle fuel s buffer = ⟨s, [], buffer, some "invalid RIL record length"⟩ := by
  obtain ⟨n, hnumber, hn⟩ := h
  have hlong := number_length hnumber
  obtain ⟨fuel, rfl⟩ : ∃ k, fuel = k + 1 := ⟨fuel - 1, by omega⟩
  unfold drainFrom
  rw [if_neg (by omega), hnumber]
  dsimp only
  rw [if_pos hn]

/-- A record that is whole goes to `handle`. -/
theorem drainFrom_record {frame : Bytes} (hmin : 4 ≤ frame.length) (hmax : frame.length ≤ 65536) (rest : Bytes) (fuel : Nat) (s : σ) :
    drainFrom handle (fuel + 1) s (record frame ++ rest) =
      match handle s frame with
      | (s, some e) => ⟨s, [frame], rest, some e⟩
      | (s, none) => (drainFrom handle fuel s rest).after [frame] := by
  have hlength : (record frame ++ rest).length = frame.length + 4 + rest.length := by
    rw [List.length_append, length_record]
  have hdrop : (record frame ++ rest).drop (frame.length + 4) = rest := List.drop_left' (length_record frame)
  have htake : ((record frame ++ rest).drop 4).take frame.length = frame := by
    rw [record, List.append_assoc, List.drop_left' (BigEndian.length_toBytes ..), List.take_left]
  have hallowed : ¬ ¬ (4 ≤ frame.length ∧ frame.length ≤ 65536) := not_not.mpr ⟨hmin, hmax⟩
  conv => lhs; unfold drainFrom
  rw [if_neg (by omega), number_record hmax]
  dsimp only
  rw [if_neg hallowed, if_neg (by omega), htake, hdrop]

theorem drainFrom_fuel {fuel more : Nat} {s : σ} {buffer : Bytes} (h : buffer.length ≤ fuel) (hmore : buffer.length ≤ more) :
    drainFrom handle fuel s buffer = drainFrom handle more s buffer := by
  induction fuel generalizing more s buffer with
  | zero =>
    have hwaits : Waits buffer := .inl (by omega)
    rw [drainFrom_waits hwaits, drainFrom_waits hwaits]
  | succ fuel ih =>
    rcases buffer_cases buffer with hwaits | hlong | ⟨frame, rest, rfl, hmin, hmax⟩
    · rw [drainFrom_waits hwaits, drainFrom_waits hwaits]
    · rw [drainFrom_tooLong hlong h, drainFrom_tooLong hlong hmore]
    · rw [List.length_append, length_record] at h hmore
      obtain ⟨more, rfl⟩ : ∃ k, more = k + 1 := ⟨more - 1, by omega⟩
      have hrest : ∀ s, drainFrom handle fuel s rest = drainFrom handle more s rest := fun s => ih (by omega) (by omega)
      rw [drainFrom_record hmin hmax, drainFrom_record hmin hmax]
      simp only [hrest]

/-! ## Laws of the loop -/

section

variable {s t : σ} {frame rest : Bytes} {e : String}

theorem drain_waits {buffer : Bytes} (h : Waits buffer) (s : σ) : drain handle s buffer = ⟨s, [], buffer, none⟩ := drainFrom_waits h ..

theorem drain_tooLong {buffer : Bytes} (h : TooLong buffer) (s : σ) :
    drain handle s buffer = ⟨s, [], buffer, some "invalid RIL record length"⟩ := drainFrom_tooLong h (Nat.le_refl _) s

theorem drain_fails (hmin : 4 ≤ frame.length) (hmax : frame.length ≤ 65536) (h : handle s frame = (t, some e)) :
    drain handle s (record frame ++ rest) = ⟨t, [frame], rest, some e⟩ := by
  obtain ⟨k, hk⟩ : ∃ k, (record frame ++ rest).length = k + 1 := ⟨frame.length + 3 + rest.length, by rw [List.length_append, length_record]; omega⟩
  rw [drain, hk, drainFrom_record hmin hmax, h]

theorem drain_next (hmin : 4 ≤ frame.length) (hmax : frame.length ≤ 65536) (h : handle s frame = (t, none)) :
    drain handle s (record frame ++ rest) = (drain handle t rest).after [frame] := by
  have hlength : (record frame ++ rest).length = frame.length + 3 + rest.length + 1 := by
    rw [List.length_append, length_record]
    omega
  have hfuel : drainFrom handle (frame.length + 3 + rest.length) t rest = drain handle t rest := drainFrom_fuel (by omega) (Nat.le_refl _)
  rw [drain, hlength, drainFrom_record hmin hmax, h]
  exact congrArg (·.after [frame]) hfuel

end

/-- The loop, a record at a time. -/
theorem drain_induct (handle : σ → Bytes → σ × Option String) {P : σ → Bytes → Prop} (hwaits : ∀ s buffer, Waits buffer → P s buffer)
    (hlong : ∀ s buffer, TooLong buffer → P s buffer)
    (hfails : ∀ s t frame rest e, 4 ≤ frame.length → frame.length ≤ 65536 → handle s frame = (t, some e) → P s (record frame ++ rest))
    (hnext : ∀ s t frame rest, 4 ≤ frame.length → frame.length ≤ 65536 → handle s frame = (t, none) → P t rest → P s (record frame ++ rest))
    (s : σ) (buffer : Bytes) : P s buffer := by
  induction hn : buffer.length using Nat.strongRecOn generalizing s buffer with
  | ind n ih =>
    rcases buffer_cases buffer with hw | hl | ⟨frame, rest, rfl, hmin, hmax⟩
    · exact hwaits s buffer hw
    · exact hlong s buffer hl
    · cases hhandle : handle s frame with
      | mk t err =>
        cases err with
        | some e => exact hfails s t frame rest e hmin hmax hhandle
        | none =>
          rw [List.length_append, length_record] at hn
          exact hnext s t frame rest hmin hmax hhandle (ih rest.length (by omega) t rest rfl)

theorem number_append {a : Bytes} {n : Nat} (h : Session.number a 0 = .ok n) (b : Bytes) : Session.number (a ++ b) 0 = .ok n := by
  have hlong := number_length h
  rw [number_of_long (by omega)] at h
  rw [number_of_long (by rw [List.length_append]; omega), List.take_append_of_le_length hlong, h]

/-- What comes later does not change what is done with what is there. -/
theorem drain_append (s : σ) (a b : Bytes) : drain handle s (a ++ b) =
    if (drain handle s a).err.isSome then { drain handle s a with buffer := (drain handle s a).buffer ++ b }
    else (drain handle (drain handle s a).session ((drain handle s a).buffer ++ b)).after (drain handle s a).dispatched := by
  refine drain_induct handle (P := fun s a => drain handle s (a ++ b) = if (drain handle s a).err.isSome then
    { drain handle s a with buffer := (drain handle s a).buffer ++ b }
    else (drain handle (drain handle s a).session ((drain handle s a).buffer ++ b)).after (drain handle s a).dispatched) ?_ ?_ ?_ ?_ s a
  · intro s a hwaits
    rw [drain_waits hwaits]
    rfl
  · intro s a hlong
    obtain ⟨n, hnumber, hn⟩ := hlong
    rw [drain_tooLong ⟨n, hnumber, hn⟩, drain_tooLong ⟨n, number_append hnumber b, hn⟩]
    rfl
  · intro s t frame rest e hmin hmax hhandle
    rw [List.append_assoc, drain_fails hmin hmax hhandle, drain_fails hmin hmax hhandle]
    rfl
  · intro s t frame rest hmin hmax hhandle ih
    rw [List.append_assoc, drain_next hmin hmax hhandle, drain_next hmin hmax hhandle, ih]
    split
    · rename_i herr
      exact (if_pos herr).symm
    · rename_i herr
      exact (if_neg herr).symm

/-- No byte is lost, doubled or moved. -/
theorem drain_records (handle : σ → Bytes → σ × Option String) (s : σ) (buffer : Bytes) :
    (drain handle s buffer).dispatched.flatMap record ++ (drain handle s buffer).buffer = buffer ∧
      ∀ f ∈ (drain handle s buffer).dispatched, 4 ≤ f.length ∧ f.length ≤ 65536 := by
  refine drain_induct handle (P := fun s buffer => (drain handle s buffer).dispatched.flatMap record ++ (drain handle s buffer).buffer = buffer ∧
    ∀ f ∈ (drain handle s buffer).dispatched, 4 ≤ f.length ∧ f.length ≤ 65536) ?_ ?_ ?_ ?_ s buffer
  · intro s buffer hwaits
    rw [drain_waits hwaits]
    exact ⟨rfl, nofun⟩
  · intro s buffer hlong
    rw [drain_tooLong hlong]
    exact ⟨rfl, nofun⟩
  · intro s t frame rest e hmin hmax hhandle
    rw [drain_fails hmin hmax hhandle]
    refine ⟨by simp, fun f hf => ?_⟩
    rw [List.mem_singleton.mp hf]
    exact ⟨hmin, hmax⟩
  · intro s t frame rest hmin hmax hhandle ih
    rw [drain_next hmin hmax hhandle]
    refine ⟨?_, fun f hf => ?_⟩
    · show (frame :: (drain handle t rest).dispatched).flatMap record ++ (drain handle t rest).buffer = _
      rw [List.flatMap_cons, List.append_assoc, ih.1]
    · rcases List.mem_cons.mp hf with rfl | hf
      · exact ⟨hmin, hmax⟩
      · exact ih.2 f hf

/-- Where the loop leaves off: no record is whole, a length is not allowed, or a frame failed. -/
def Stopped (handle : σ → Bytes → σ × Option String) (d : Drained σ) : Prop :=
  match d.err with
  | none => Waits d.buffer
  | some e => TooLong d.buffer ∧ e = "invalid RIL record length" ∨ ∃ init f t, d.dispatched = init ++ [f] ∧ handle t f = (d.session, some e)

theorem stopped_after {d : Drained σ} (h : Stopped handle d) (frames : List Bytes) : Stopped handle (d.after frames) := by
  unfold Stopped at h ⊢
  show match d.err with
    | none => Waits d.buffer
    | some e => TooLong d.buffer ∧ e = "invalid RIL record length" ∨
        ∃ init f t, frames ++ d.dispatched = init ++ [f] ∧ handle t f = (d.session, some e)
  cases herr : d.err with
  | none =>
    rw [herr] at h
    exact h
  | some e =>
    rw [herr] at h
    refine h.imp_right ?_
    rintro ⟨init, f, t, hdispatched, hf⟩
    exact ⟨frames ++ init, f, t, by rw [hdispatched, List.append_assoc], hf⟩

theorem drain_stopped (handle : σ → Bytes → σ × Option String) (s : σ) (buffer : Bytes) : Stopped handle (drain handle s buffer) := by
  refine drain_induct handle (P := fun s buffer => Stopped handle (drain handle s buffer)) ?_ ?_ ?_ ?_ s buffer
  · intro s buffer hwaits
    rw [drain_waits hwaits]
    exact hwaits
  · intro s buffer hlong
    rw [drain_tooLong hlong]
    exact .inl ⟨hlong, rfl⟩
  · intro s t frame rest e hmin hmax hhandle
    rw [drain_fails hmin hmax hhandle]
    exact .inr ⟨[], frame, s, rfl, hhandle⟩
  · intro s t frame rest hmin hmax hhandle ih
    rw [drain_next hmin hmax hhandle]
    exact stopped_after ih _

/-! ## Reads -/

/-- The bytes that are not looked at: the later reads, after a record that ended the session. -/
def unread (d : Drained σ) (r : Drained σ × List Read) : Bytes := if d.err.isSome then received r.2 else []

/-- Reads in pieces do what the loop does to all the bytes. -/
theorem run_drain (handle : σ → Bytes → σ × Option String) {buffer : Bytes} (hwaits : Waits buffer) (s : σ) (reads : List Read) :
    let whole := drain handle s (buffer ++ received reads)
    let r := run handle s buffer reads
    r.1.dispatched = whole.dispatched ∧ r.1.session = whole.session ∧ r.1.err = whole.err.or (ending reads) ∧
      r.1.buffer ++ unread whole r = whole.buffer := by
  induction reads generalizing s buffer with
  | nil =>
    dsimp only [received]
    rw [List.append_nil, drain_waits hwaits]
    exact ⟨rfl, rfl, rfl, List.append_nil _⟩
  | cons read reads ih =>
    have hbegin : drain handle s (buffer ++ []) = ⟨s, [], buffer, none⟩ := by rw [List.append_nil, drain_waits hwaits]
    cases read with
    | failed e =>
      dsimp only [received, run, readSocket]
      rw [hbegin]
      exact ⟨rfl, rfl, rfl, List.append_nil _⟩
    | again =>
      have hnext := ih hwaits s
      dsimp only [received, run, readSocket] at hnext ⊢
      rw [drain_waits hwaits]
      exact hnext
    | ok bytes =>
      dsimp only [received, run, readSocket, ending]
      cases hbytes : bytes.isEmpty with
      | true =>
        simp only [if_true]
        rw [hbegin]
        exact ⟨rfl, rfl, rfl, List.append_nil _⟩
      | false =>
        simp only [Bool.false_eq_true, if_false]
        rw [← List.append_assoc, drain_append s (buffer ++ bytes)]
        have hstopped : Stopped handle (drain handle s (buffer ++ bytes)) := drain_stopped handle s _
        generalize drain handle s (buffer ++ bytes) = d at hstopped ⊢
        obtain ⟨session, dispatched, left, err⟩ := d
        cases err with
        | some e => exact ⟨rfl, rfl, rfl, rfl⟩
        | none =>
          obtain ⟨hdispatched, hsession, herr, hleft⟩ := ih hstopped session
          exact ⟨congrArg (dispatched ++ ·) hdispatched, hsession, herr, hleft⟩

/-- The session ends where the loop does, or with the stream, which leaves no whole record. -/
theorem run_stopped {buffer : Bytes} (hwaits : Waits buffer) (s : σ) (reads : List Read) :
    let d := (run handle s buffer reads).1
    d.err.isSome ∧ Stopped handle d ∨ Waits d.buffer ∧ d.err = ending reads := by
  induction reads generalizing s buffer with
  | nil => exact .inr ⟨hwaits, rfl⟩
  | cons read reads ih =>
    have hgo : ∀ bytes, readSocket handle s buffer read = drain handle s bytes → ending (read :: reads) = ending reads →
        let d := (run handle s buffer (read :: reads)).1
        d.err.isSome ∧ Stopped handle d ∨ Waits d.buffer ∧ d.err = ending (read :: reads) := by
      intro bytes hread hending
      have hstopped : Stopped handle (drain handle s bytes) := drain_stopped handle s _
      rw [hending]
      dsimp only [run]
      rw [hread]
      generalize drain handle s bytes = d at hstopped ⊢
      obtain ⟨session, dispatched, left, err⟩ := d
      cases err with
      | some e => exact .inl ⟨rfl, hstopped⟩
      | none => exact (ih hstopped session).imp_left fun h => ⟨h.1, stopped_after h.2 dispatched⟩
    cases read with
    | failed e => exact .inr ⟨hwaits, rfl⟩
    | again => exact hgo buffer rfl rfl
    | ok bytes =>
      cases hbytes : bytes.isEmpty with
      | true =>
        dsimp only [run, readSocket, ending]
        rw [hbytes]
        exact .inr ⟨hwaits, rfl⟩
      | false => exact hgo (buffer ++ bytes) (by simp [readSocket, hbytes]) (by simp [ending, hbytes])

/-- What a session makes of its reads: every frame as its length says, in the order of the bytes, and no
    whole record is left; a length that is not allowed is the end. -/
structure Framed (handle : σ → Bytes → σ × Option String) (s : σ) (reads : List Read) : Prop where
  lengths : ∀ f ∈ (run handle s [] reads).1.dispatched, 4 ≤ f.length ∧ f.length ≤ 65536
  bytes : ∃ rest, (run handle s [] reads).1.dispatched.flatMap record ++ (run handle s [] reads).1.buffer ++ rest = received reads
  ends : (run handle s [] reads).1.err.isSome ∧ Stopped handle (run handle s [] reads).1 ∨
    Waits (run handle s [] reads).1.buffer ∧ (run handle s [] reads).1.err = ending reads

theorem framed (handle : σ → Bytes → σ × Option String) (s : σ) (reads : List Read) : Framed handle s reads := by
  have hwaits : Waits [] := .inl (by decide)
  obtain ⟨hdispatched, -, -, hbuffer⟩ := run_drain handle hwaits s reads
  rw [List.nil_append] at hdispatched hbuffer
  obtain ⟨hrecords, hlengths⟩ := drain_records handle s (received reads)
  refine ⟨fun f hf => hlengths f (hdispatched ▸ hf), ?_, run_stopped hwaits s reads⟩
  rw [← hdispatched, ← hbuffer, ← List.append_assoc] at hrecords
  exact ⟨_, hrecords⟩

/-- The end of a SIM session, cut in the length and in the frame. -/
def endWhole : List Read := [.ok [0, 0, 0, 8, 0, 0, 0, 1, 0, 0, 3, 0xF4]]

def endCut : List Read := [.ok [0, 0], .again, .ok [0, 8, 0, 0, 0, 1, 0], .ok [0, 3, 0xF4]]

def begun : Session := ⟨0, 0, 1, 0, none, none, .initializing, "Connecting to SIM Toolkit", [], none⟩

end OpenU60.Stk
