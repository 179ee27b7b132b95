import LspCpp.DelimitedListen
import LspCpp.StreamDecode

/-! The streams over a file descriptor: the standard input, and the output of a process. Small requests go through a
buffer and large ones past it; in any order of both the bytes come out as the descriptor has them. -/

namespace LspCpp

/-- The two classes, whose text is the same but for their messages. -/
inductive DescriptorIstream where
  | stdinIstream
  | pipeIstream
  deriving DecidableEq, Repr

/-- Why the loop of `read_some` goes round once more: `poll` timed out, was interrupted by a signal or saw nothing to
read, or `read` was interrupted. -/
inductive Retry where
  | poll
  | read
  deriving DecidableEq, Repr

/-- How the last round of the loop ends. -/
inductive OsResult where
  | size (n : Nat)
  | pollFailed (error : Bytes)
  | pollInvalid
  | pollError
  | readFailed (error : Bytes)
  deriving DecidableEq, Repr

/-- What the operating system does in one call of `read_some`. -/
structure OsRead where
  retries : List Retry := []
  result : OsResult
  deriving DecidableEq, Repr

/-- The members of a stream, what its descriptor has still to give, and the number of reads so far. -/
structure DescriptorState where
  fd : Int
  interrupted : Bool := false
  eof : Bool := false
  bad : Bool := false
  what : Bytes := []
  buffer : Bytes := []
  bufferPos : Nat := 0
  unread : Bytes
  reads : Nat := 0
  deriving DecidableEq, Repr

/-- The size that `read` returns: at least 1 and at most what was requested, and 0 only at the end. -/
def osSize (n request : Nat) (unread : Bytes) : Nat := min (max 1 (min n request)) unread.length

namespace DescriptorIstream

def invalidText : DescriptorIstream → Bytes
  | .stdinIstream => bytesOf "Invalid input file descriptor."
  | .pipeIstream => bytesOf "Invalid process stdout pipe."

def errorText : DescriptorIstream → Bytes
  | .stdinIstream => bytesOf "Input file descriptor error."
  | .pipeIstream => bytesOf "Process stdout pipe error."

def interruptedText : DescriptorIstream → Bytes
  | .stdinIstream => bytesOf "Input stream interrupted."
  | .pipeIstream => bytesOf "Process input stream interrupted."

def kBufferCapacity : Nat := 4096

section Code

variable (cls : DescriptorIstream) (os : Nat → OsRead)

/-- What a round that is repeated leaves behind: `buffer_` is cleared where `read` should have filled it. -/
def afterRetry (count : Nat) (s : DescriptorState) : Retry → DescriptorState
  | .poll => s
  | .read => if kBufferCapacity ≤ count then s else { s with buffer := [], bufferPos := 0 }

/-- The last round. A large request is read straight into the caller's memory. -/
def afterRead (count : Nat) (s : DescriptorState) : OsResult → Bytes × DescriptorState
  | .size n =>
      if kBufferCapacity ≤ count then
        let bytes := s.unread.take (osSize n count s.unread)
        let s := { s with unread := s.unread.drop (osSize n count s.unread) }
        if bytes = [] then ([], { s with eof := true }) else (bytes, s)
      else
        let bytes := s.unread.take (osSize n kBufferCapacity s.unread)
        let s := { s with unread := s.unread.drop (osSize n kBufferCapacity s.unread) }
        if bytes = [] then ([], { s with buffer := [], bufferPos := 0, eof := true })
        else
          let copied := min bytes.length count
          (bytes.take copied, { s with buffer := bytes, bufferPos := copied })
  | .pollFailed error => ([], { s with bad := true, what := error })
  | .pollInvalid => ([], { s with bad := true, what := cls.invalidText })
  | .pollError => ([], { s with bad := true, what := cls.errorText })
  | .readFailed error => ([], { afterRetry count s .read with bad := true, what := error })

/-- `read_some` returns the bytes that it stores. -/
def readSome (count : Int) (s : DescriptorState) : Bytes × DescriptorState :=
  if count ≤ 0 ∨ s.interrupted = true then ([], s)
  else if s.bufferPos < s.buffer.length then
    let copied := min (s.buffer.length - s.bufferPos) count.toNat
    ((s.buffer.drop s.bufferPos).take copied, { s with bufferPos := s.bufferPos + copied })
  else if s.fd < 0 then ([], { s with bad := true, what := cls.invalidText })
  else
    afterRead cls count.toNat
      ((os s.reads).retries.foldl (afterRetry count.toNat) { s with reads := s.reads + 1 }) (os s.reads).result

def get (s : DescriptorState) : Option UInt8 × DescriptorState :=
  match readSome cls os 1 s with
  | ([c], s) => (some c, s)
  | (_, s) => (none, s)

/-- The loop of `read`, which ends within as many rounds as bytes are asked for. -/
def readLoop : Nat → Nat → DescriptorState → Bytes × DescriptorState
  | 0, _, s => ([], s)
  | rounds + 1, remaining, s =>
      if remaining = 0 then ([], s)
      else
        let chunk := readSome cls os remaining s
        if chunk.1 = [] then chunk
        else
          let rest := readLoop rounds (remaining - chunk.1.length) chunk.2
          (chunk.1 ++ rest.1, rest.2)

/-- `read`; the bytes that it stores are returned. -/
def read (count : Int) (s : DescriptorState) : Bytes × DescriptorState :=
  if s.interrupted = true ∨ count ≤ 0 then ([], s) else readLoop cls os count.toNat count.toNat s

/-- The stream with all its operations. -/
def toCharStream : CharStream DescriptorState where
  readSome n s := readSome cls os n s
  read n s := read cls os n s
  eof s := s.eof || s.interrupted
  fail s := s.interrupted
  bad s := s.bad
  what s := if s.interrupted then cls.interruptedText else s.what
  needToClearTheState _ := false
  clear s := { s with interrupted := false, eof := false, bad := false, what := [] }
  get s := get cls os s

/-- A call of one of the operations that read. -/
inductive Call where
  | get
  | read (n : Int)
  | readSome (n : Int)
  deriving DecidableEq, Repr

/-- The bytes that a call returns. -/
def call (s : DescriptorState) : Call → Bytes × DescriptorState
  | .get => ((get cls os s).1.toList, (get cls os s).2)
  | .read n => read cls os n s
  | .readSome n => readSome cls os n s

/-- What the calls return, one after the other. -/
def calls : List Call → DescriptorState → List Bytes × DescriptorState
  | [], s => ([], s)
  | c :: cs, s =>
      let first := call cls os s c
      let rest := calls cs first.2
      (first.1 :: rest.1, rest.2)

end Code

/-! ### One read -/

theorem osSize_le (n request : Nat) (unread : Bytes) : osSize n request unread ≤ unread.length := Nat.min_le_right _ _

theorem osSize_le_request (n : Nat) {request : Nat} (hrequest : 0 < request) (unread : Bytes) :
    osSize n request unread ≤ request := by
  rw [osSize]
  omega

theorem osSize_pos (n request : Nat) {unread : Bytes} (hunread : unread ≠ []) : 0 < osSize n request unread := by
  have := List.length_pos_iff.mpr hunread
  rw [osSize]
  omega

/-- Every size that the operating system may return is the size for some `n`. -/
theorem osSize_self {n request : Nat} {unread : Bytes} (hpos : 0 < n) (hrequest : n ≤ request)
    (hunread : n ≤ unread.length) : osSize n request unread = n := by
  rw [osSize]
  omega

theorem take_osSize_eq_nil (n request : Nat) (unread : Bytes) :
    unread.take (osSize n request unread) = [] ↔ unread = [] := by
  rw [List.take_eq_nil_iff]
  constructor
  · rintro (hzero | hnil)
    · by_contra hne
      have := osSize_pos n request hne
      omega
    · exact hnil
  · exact .inr

/-- The stream has still to yield `rest`: what is left in the buffer, and what is left to read. -/
structure Pending (s : DescriptorState) (rest : Bytes) : Prop where
  valid : 0 ≤ s.fd
  quiet : s.interrupted = false
  good : s.bad = false
  bytes : s.buffer.drop s.bufferPos ++ s.unread = rest
  eof : s.eof = true → rest = []

variable (cls : DescriptorIstream) {os : Nat → OsRead}

/-- Rounds that are repeated when the buffer has been used up leave it so, and change nothing else. -/
theorem Pending.afterRetry {s : DescriptorState} {rest : Bytes} (h : Pending s rest)
    (hbuffer : s.buffer.length ≤ s.bufferPos) (count : Nat) (r : Retry) :
    Pending (afterRetry count s r) rest ∧
      (DescriptorIstream.afterRetry count s r).buffer.length ≤ (DescriptorIstream.afterRetry count s r).bufferPos := by
  cases r with
  | poll => exact ⟨h, hbuffer⟩
  | read =>
      rw [DescriptorIstream.afterRetry]
      split_ifs with hlarge
      · exact ⟨h, hbuffer⟩
      · have hbytes := h.bytes
        rw [List.drop_of_length_le hbuffer] at hbytes
        exact ⟨⟨h.valid, h.quiet, h.good, hbytes, h.eof⟩, Nat.le_refl 0⟩

theorem Pending.retries {s : DescriptorState} {rest : Bytes} (h : Pending s rest)
    (hbuffer : s.buffer.length ≤ s.bufferPos) (count : Nat) (retries : List Retry) :
    Pending (retries.foldl (DescriptorIstream.afterRetry count) s) rest ∧
      (retries.foldl (DescriptorIstream.afterRetry count) s).buffer.length ≤
        (retries.foldl (DescriptorIstream.afterRetry count) s).bufferPos := by
  induction retries generalizing s with
  | nil => exact ⟨h, hbuffer⟩
  | cons r retries ih =>
      obtain ⟨hr, hbuffer'⟩ := h.afterRetry hbuffer count r
      exact ih hr hbuffer'

/-- What one call takes from the bytes `rest`: a piece at their front, which is empty only at the end; it is then
that the end is reported. -/
def Takes (count : Nat) (rest : Bytes) (result : Bytes × DescriptorState) : Prop :=
  ∃ k, k ≤ count ∧ k ≤ rest.length ∧ (rest ≠ [] → 0 < k) ∧ result.1 = rest.take k ∧
    Pending result.2 (rest.drop k) ∧ (result.2.eof = true ↔ rest = [])

theorem Takes.fst_eq_nil_iff {count : Nat} {rest : Bytes} {result : Bytes × DescriptorState}
    (h : Takes count rest result) : result.1 = [] ↔ rest = [] := by
  obtain ⟨k, -, -, hpos, hresult, -, -⟩ := h
  rw [hresult, List.take_eq_nil_iff]
  constructor
  · rintro (hzero | hnil)
    · by_contra hne
      have := hpos hne
      omega
    · exact hnil
  · exact .inr

/-- A part of the bytes that have been taken is put back in front of the others. -/
theorem drop_take_append_drop {k m : Nat} (h : k ≤ m) (bytes : Bytes) :
    (bytes.take m).drop k ++ bytes.drop m = bytes.drop k := by
  have hm : m = k + (m - k) := by omega
  rw [List.drop_take]
  conv_lhs => rw [hm, ← List.drop_drop, Nat.add_sub_cancel_left]
  exact List.take_append_drop _ _

section LastRound

variable {s : DescriptorState} {rest : Bytes} {count : Nat}

theorem Pending.eof_eq_false (h : Pending s rest) (hne : rest ≠ []) : s.eof = false := by
  cases heof : s.eof with
  | false => rfl
  | true => exact absurd (h.eof heof) hne

/-- A read at the end of the descriptor. -/
theorem Pending.takes_nothing (h : Pending s rest) (hrest : rest = []) {s' : DescriptorState} (hvalid : s'.fd = s.fd)
    (hquiet : s'.interrupted = s.interrupted) (hgood : s'.bad = s.bad)
    (hbytes : s'.buffer.drop s'.bufferPos ++ s'.unread = []) (heof : s'.eof = true) : Takes count rest ([], s') := by
  refine ⟨0, Nat.zero_le _, Nat.zero_le _, fun hne => absurd hrest hne, rfl, ?_, iff_of_true heof hrest⟩
  rw [hrest]
  exact ⟨hvalid ▸ h.valid, hquiet ▸ h.quiet, hgood ▸ h.good, hbytes, fun _ => rfl⟩

/-- A large request is served by the descriptor alone. -/
theorem Pending.afterRead_large (h : Pending s rest) (hbuffer : s.buffer.drop s.bufferPos = []) (hcount : 0 < count)
    (hlarge : kBufferCapacity ≤ count) (n : Nat) : Takes count rest (afterRead cls count s (.size n)) := by
  obtain rfl : s.unread = rest := by
    have := h.bytes
    rwa [hbuffer] at this
  rw [DescriptorIstream.afterRead, if_pos hlarge]
  dsimp only
  by_cases hnil : s.unread = []
  · rw [if_pos ((take_osSize_eq_nil _ _ _).mpr hnil)]
    exact h.takes_nothing hnil rfl rfl rfl (by simp [hbuffer, hnil]) rfl
  · have heof := h.eof_eq_false hnil
    rw [if_neg fun htake => hnil ((take_osSize_eq_nil _ _ _).mp htake)]
    refine ⟨osSize n count s.unread, osSize_le_request n hcount _, osSize_le _ _ _, osSize_pos _ _, rfl, ?_, ?_⟩
    · exact ⟨h.valid, h.quiet, h.good, by simp [hbuffer], fun heof' => absurd (heof.symm.trans heof') (by decide)⟩
    · exact iff_of_false (by simp [heof]) hnil

/-- A small request fills the buffer, of which it takes the front. -/
theorem Pending.afterRead_small (h : Pending s rest) (hbuffer : s.buffer.drop s.bufferPos = []) (hcount : 0 < count)
    (hsmall : ¬kBufferCapacity ≤ count) (n : Nat) : Takes count rest (afterRead cls count s (.size n)) := by
  obtain rfl : s.unread = rest := by
    have := h.bytes
    rwa [hbuffer] at this
  rw [DescriptorIstream.afterRead, if_neg hsmall]
  dsimp only
  by_cases hnil : s.unread = []
  · rw [if_pos ((take_osSize_eq_nil _ _ _).mpr hnil)]
    exact h.takes_nothing hnil rfl rfl rfl (by simp [hnil]) rfl
  · have heof := h.eof_eq_false hnil
    have hpos := osSize_pos n kBufferCapacity hnil
    have hle := osSize_le n kBufferCapacity s.unread
    have hlength : (s.unread.take (osSize n kBufferCapacity s.unread)).length =
        osSize n kBufferCapacity s.unread := by
      rw [List.length_take]
      omega
    rw [if_neg fun htake => hnil ((take_osSize_eq_nil _ _ _).mp htake), hlength]
    generalize osSize n kBufferCapacity s.unread = size at hpos hle
    refine ⟨min size count, Nat.min_le_right _ _, by omega, fun _ => by omega, ?_, ?_, ?_⟩
    · change (s.unread.take size).take (min size count) = _
      rw [List.take_take, Nat.min_eq_left (Nat.min_le_left size count)]
    · exact ⟨h.valid, h.quiet, h.good, drop_take_append_drop (Nat.min_le_left size count) _,
        fun heof' => absurd (heof.symm.trans heof') (by decide)⟩
    · exact iff_of_false (by simp [heof]) hnil

end LastRound

/-- An operating system whose reads do not fail. -/
def Reads (os : Nat → OsRead) : Prop := ∀ i, ∃ n, (os i).result = .size n

/-- `read_some` takes a piece from the front of what is pending. -/
theorem Pending.readSome (hos : Reads os) {s : DescriptorState} {rest : Bytes} (h : Pending s rest) {count : Nat}
    (hcount : 0 < count) : Takes count rest (readSome cls os count s) := by
  have hcount' : ¬((count : Int) ≤ 0 ∨ s.interrupted = true) := by
    rw [h.quiet]
    simp only [Bool.false_eq_true, or_false]
    omega
  have hvalid : ¬s.fd < 0 := Int.not_lt.mpr h.valid
  rw [DescriptorIstream.readSome, if_neg hcount', Int.toNat_natCast]
  split_ifs with hbuffer
  · have hlength : (s.buffer.drop s.bufferPos).length = s.buffer.length - s.bufferPos := List.length_drop ..
    have hrest : rest ≠ [] := by
      rw [← h.bytes]
      intro hnil
      have := congrArg List.length hnil
      rw [List.length_append, hlength, List.length_nil] at this
      omega
    have hrestLength : s.buffer.length - s.bufferPos ≤ rest.length := by
      rw [← h.bytes, List.length_append, hlength]
      omega
    refine ⟨min (s.buffer.length - s.bufferPos) count, Nat.min_le_right _ _, by omega, fun _ => by omega, ?_, ?_, ?_⟩
    · rw [← h.bytes, List.take_append_of_le_length (by omega)]
    · refine ⟨h.valid, h.quiet, h.good, ?_, fun heof => absurd (h.eof heof) hrest⟩
      rw [← h.bytes, List.drop_append_of_le_length (by omega), List.drop_drop]
    · exact iff_of_false (by simp [h.eof_eq_false hrest]) hrest
  · obtain ⟨n, hn⟩ := hos s.reads
    have hstart : Pending { s with reads := s.reads + 1 } rest := ⟨h.valid, h.quiet, h.good, h.bytes, h.eof⟩
    obtain ⟨hpending, hused⟩ := hstart.retries (Nat.le_of_not_lt hbuffer) count (os s.reads).retries
    rw [hn]
    by_cases hlarge : kBufferCapacity ≤ count
    · exact hpending.afterRead_large cls (List.drop_of_length_le hused) hcount hlarge n
    · exact hpending.afterRead_small cls (List.drop_of_length_le hused) hcount hlarge n

/-! ### The other operations -/

/-- `read` goes on until it has what it was asked for or the end is reached. -/
theorem Pending.readLoop (hos : Reads os) (rounds : Nat) {s : DescriptorState} {rest : Bytes} (h : Pending s rest)
    {remaining : Nat} (hremaining : remaining ≤ rounds) :
    (readLoop cls os rounds remaining s).1 = rest.take remaining ∧
      Pending (DescriptorIstream.readLoop cls os rounds remaining s).2 (rest.drop remaining) ∧
      (0 < remaining →
        ((DescriptorIstream.readLoop cls os rounds remaining s).2.eof = true ↔ rest.length < remaining)) := by
  induction rounds generalizing s rest remaining with
  | zero =>
      obtain rfl : remaining = 0 := by omega
      exact ⟨rfl, h, fun hpos => absurd hpos (by decide)⟩
  | succ rounds ih =>
      rw [DescriptorIstream.readLoop]
      by_cases hzero : remaining = 0
      · rw [if_pos hzero, hzero]
        exact ⟨rfl, h, fun hpos => absurd hpos (by decide)⟩
      rw [if_neg hzero]
      have hchunk := h.readSome cls hos (Nat.pos_of_ne_zero hzero)
      have hnil := hchunk.fst_eq_nil_iff
      obtain ⟨k, hcount, hlength, hpos, hresult, hpending, heof⟩ := hchunk
      dsimp only
      by_cases hrest : rest = []
      · rw [if_pos (hnil.mpr hrest), hnil.mpr hrest, hrest, List.take_nil, List.drop_nil]
        rw [hrest, List.drop_nil] at hpending
        refine ⟨rfl, hpending, fun _ => iff_of_true (heof.mpr hrest) ?_⟩
        rw [List.length_nil]
        omega
      · have hk := hpos hrest
        have htake : (rest.take k).length = k := List.length_take_of_le hlength
        have hsub : remaining - k ≤ rounds := by omega
        obtain ⟨hbytes, hfinal, hend⟩ := ih hpending hsub
        rw [if_neg fun heq => hrest (hnil.mp heq), hresult, htake, hbytes]
        refine ⟨?_, ?_, fun _ => ?_⟩
        · rw [← List.take_add, Nat.add_sub_cancel' hcount]
        · rw [List.drop_drop, Nat.add_sub_cancel' hcount] at hfinal
          exact hfinal
        · by_cases hlast : remaining = k
          · have hstop : remaining - k = 0 := by omega
            have hloop : ∀ s, DescriptorIstream.readLoop cls os rounds 0 s = ([], s) := fun s => by
              cases rounds <;> rfl
            rw [hstop, hloop]
            exact iff_of_false (fun heof' => hrest (heof.mp heof')) (by omega)
          · rw [hend (by omega), List.length_drop]
            omega

theorem Pending.read (hos : Reads os) {s : DescriptorState} {rest : Bytes} (h : Pending s rest) (count : Int) :
    (read cls os count s).1 = rest.take count.toNat ∧
      Pending (DescriptorIstream.read cls os count s).2 (rest.drop count.toNat) ∧
      (0 < count → ((DescriptorIstream.read cls os count s).2.eof = true ↔ rest.length < count.toNat)) := by
  rw [DescriptorIstream.read, h.quiet]
  by_cases hcount : count ≤ 0
  · rw [if_pos (.inr hcount), Int.toNat_of_nonpos hcount]
    exact ⟨rfl, h, fun hpos => absurd hpos (Int.not_lt.mpr hcount)⟩
  · rw [if_neg (by simpa using hcount)]
    obtain ⟨hbytes, hpending, heof⟩ := h.readLoop cls hos count.toNat (Nat.le_refl count.toNat)
    exact ⟨hbytes, hpending, fun hpos => heof (by omega)⟩

theorem Pending.get (hos : Reads os) {s : DescriptorState} {rest : Bytes} (h : Pending s rest) :
    (get cls os s).1 = rest.head? ∧ Pending (DescriptorIstream.get cls os s).2 (rest.drop 1) := by
  have htakes := h.readSome cls hos Nat.one_pos
  obtain ⟨k, hcount, hlength, hpos, hresult, hpending, -⟩ := htakes
  change (DescriptorIstream.readSome cls os 1 s).1 = _ at hresult
  change Pending (DescriptorIstream.readSome cls os 1 s).2 _ at hpending
  rw [DescriptorIstream.get]
  generalize DescriptorIstream.readSome cls os 1 s = result at hresult hpending
  obtain ⟨bytes, s'⟩ := result
  dsimp only at hresult hpending
  cases rest with
  | nil =>
      rw [List.take_nil] at hresult
      rw [hresult]
      exact ⟨rfl, by simpa using hpending⟩
  | cons c rest =>
      have hk := hpos (List.cons_ne_nil _ _)
      obtain rfl : k = 1 := by omega
      rw [hresult]
      exact ⟨rfl, hpending⟩

/-- One call takes a piece of what is pending; a request for nothing takes nothing. -/
theorem Pending.call (hos : Reads os) {s : DescriptorState} {rest : Bytes} (h : Pending s rest) (c : Call) :
    ∃ rest', rest = (call cls os s c).1 ++ rest' ∧ Pending (DescriptorIstream.call cls os s c).2 rest' := by
  cases c with
  | get =>
      obtain ⟨hbyte, hpending⟩ := h.get cls hos
      refine ⟨rest.drop 1, ?_, hpending⟩
      change rest = (DescriptorIstream.get cls os s).1.toList ++ _
      rw [hbyte]
      cases rest <;> rfl
  | read n =>
      obtain ⟨hbytes, hpending, -⟩ := h.read cls hos n
      refine ⟨rest.drop n.toNat, ?_, hpending⟩
      change rest = (DescriptorIstream.read cls os n s).1 ++ _
      rw [hbytes, List.take_append_drop]
  | readSome n =>
      by_cases hn : n ≤ 0
      · have hnone : DescriptorIstream.readSome cls os n s = ([], s) := if_pos (.inl hn)
        refine ⟨rest, ?_, ?_⟩
        · change rest = (DescriptorIstream.readSome cls os n s).1 ++ rest
          rw [hnone, List.nil_append]
        · change Pending (DescriptorIstream.readSome cls os n s).2 rest
          rw [hnone]
          exact h
      · have hnat : ((n.toNat : Nat) : Int) = n := Int.toNat_of_nonneg (by omega)
        have htakes := h.readSome cls hos (by omega : 0 < n.toNat)
        rw [hnat] at htakes
        obtain ⟨k, -, -, -, hresult, hpending, -⟩ := htakes
        refine ⟨rest.drop k, ?_, hpending⟩
        change rest = (DescriptorIstream.readSome cls os n s).1 ++ _
        rw [hresult, List.take_append_drop]

/-- In every run what has been returned and what is pending make up the content. -/
theorem Pending.calls (hos : Reads os) (cs : List Call) {s : DescriptorState} {rest : Bytes} (h : Pending s rest) :
    ∃ rest', rest = (calls cls os cs s).1.flatten ++ rest' ∧
      Pending (DescriptorIstream.calls cls os cs s).2 rest' := by
  induction cs generalizing s rest with
  | nil => exact ⟨rest, rfl, h⟩
  | cons c cs ih =>
      obtain ⟨rest', hfirst, hpending⟩ := h.call cls hos c
      obtain ⟨rest'', hrest, hfinal⟩ := ih hpending
      refine ⟨rest'', ?_, hfinal⟩
      rw [DescriptorIstream.calls, List.flatten_cons, List.append_assoc, ← hrest]
      exact hfirst

/-- A stream on a descriptor from which nothing has been read. -/
theorem Pending.init (fd : Nat) (content : Bytes) : Pending { fd := fd, unread := content } content where
  valid := Int.natCast_nonneg fd
  quiet := rfl
  good := rfl
  bytes := rfl
  eof := fun h => absurd h Bool.false_ne_true

/-- **Descriptor streams deliver the content**: in every run, with whatever sizes and interruptions of the reads, the
bytes returned are the content up to some point, the end of the file is reported only behind its last byte, and a
`read` returns fewer bytes than asked for only where it has come to the end. -/
theorem calls_deliver (fd : Nat) (content : Bytes) (retries : Nat → List Retry)
    (sizes : Nat → Nat) (cs : List Call) :
    let os := fun i => OsRead.mk (retries i) (.size (sizes i))
    let run := DescriptorIstream.calls cls os cs { fd := fd, unread := content }
    run.1.flatten <+: content ∧
      ((toCharStream cls os).eof run.2 = true → run.1.flatten = content) ∧
      ∀ n : Int, ((DescriptorIstream.read cls os n run.2).1.length : Int) < n →
        run.1.flatten ++ (DescriptorIstream.read cls os n run.2).1 = content := by
  intro os run
  have hos : Reads os := fun i => ⟨sizes i, rfl⟩
  obtain ⟨rest, hcontent, hpending⟩ := (Pending.init fd content).calls cls hos cs
  refine ⟨⟨rest, hcontent.symm⟩, fun heof => ?_, fun n hshort => ?_⟩
  · have hflag : (run.2.eof || run.2.interrupted) = true := heof
    rw [hpending.quiet, Bool.or_false] at hflag
    rw [hpending.eof hflag, List.append_nil] at hcontent
    exact hcontent.symm
  · obtain ⟨hbytes, -, -⟩ := hpending.read cls hos n
    rw [hbytes] at hshort ⊢
    rw [List.length_take] at hshort
    rw [List.take_of_length_le (by omega)]
    exact hcontent.symm

/-- A byte through the buffer, a piece past it, and a bulk read, each after an interruption. -/
example : (calls .pipeIstream (fun i => ⟨[.read, .poll], .size (i + 1)⟩) [.get, .readSome 4096, .read 5]
    { fd := 3, unread := bytesOf "abcdef" }).1 = [bytesOf "a", bytesOf "bc", bytesOf "def"] := by decide

/-- Such a stream is one over which the frames of the standard style are read. -/
theorem toCharStream_yields (hos : Reads os) :
    (toCharStream cls os).toIStream.Yields Pending where
  readSome := by
    intro s rest n h hrest hn
    obtain ⟨k, hcount, hlength, hpos, hresult, hpending, -⟩ := h.readSome cls hos hn
    exact ⟨k, hpos hrest, hcount, hlength, hresult, hpending⟩
  readSome_end := by
    intro s n h hn
    exact (h.readSome cls hos hn).fst_eq_nil_iff.mpr rfl
  read := by
    intro s rest n h hn hle
    obtain ⟨hbytes, hpending, heof⟩ := h.read cls hos n
    rw [Int.toNat_natCast] at hbytes hpending heof
    have hnot : (DescriptorIstream.read cls os n s).2.eof = false := by
      rw [Bool.eq_false_iff, ne_eq, heof (by omega)]
      omega
    refine ⟨hbytes, hpending, ?_⟩
    change ((DescriptorIstream.read cls os n s).2.eof || (DescriptorIstream.read cls os n s).2.interrupted) = false
    rw [hnot, hpending.quiet, Bool.or_false]
  read_short := by
    intro s rest n h hshort
    obtain ⟨-, hpending, heof⟩ := h.read cls hos n
    rw [Int.toNat_natCast] at heof
    refine ⟨hpending.good, ?_⟩
    change ((DescriptorIstream.read cls os n s).2.eof || (DescriptorIstream.read cls os n s).2.interrupted) = true
    rw [(heof (by omega)).mpr hshort, Bool.true_or]
  good h := ⟨h.good, h.quiet⟩
  eof := by
    intro s rest h heof
    change (s.eof || s.interrupted) = true at heof
    rw [h.quiet, Bool.or_false] at heof
    exact h.eof heof

/-- And of the delimited style. -/
theorem toCharStream_gets (hos : Reads os) : (toCharStream cls os).Gets Pending where
  get h := h.get cls hos
  get_end h := (h.get cls hos).1
  good h := ⟨h.good, h.quiet⟩

end DescriptorIstream

end LspCpp
