import Mathlib
import Miez.Proofs.NetworkServer.Scanning

/-!
# `Miez.Proofs.NetworkServer.Framing`: when the handler stays in step with its client

A client sends frames: command lines, and lines of a publish with a content and a newline after
them. `frameLog` is what the handler should make of them up to the first `QUIT`. The handler
reads the content of a publish with one `SSL_read`, which may return fewer bytes than asked.
Then it answers `ERR` and reads the rest of the content as command lines.

`stream_framing`: the handler does what `frameLog` says if and only if the environment and the
frames are `InStep`: every content comes in one `SSL_read` into a buffer that `malloc` gave, and
`sscanf` sees in every line what the protocol says is there. Both directions follow the frames
one by one. A line of a frame is always read whole (`path_line`), and the frame where `InStep`
fails first shows in the log.
-/

set_option autoImplicit false

namespace Miez.Proofs.NetworkServer

open Miez.Lib
open Miez.NetworkServer
open Miez.Stdio

/-! ### Frames -/

/-- A command line that is no line of a publish. -/
structure CommandLine (line : List UInt8) : Prop where
  ne_nil : line ≠ []
  length_le : line.length ≤ 4094
  no_newline : 10 ∉ line
  not_publish : ∀ channel digits len, PublishHeader channel digits len →
    line ≠ publishLine channel digits

/-- A well-formed frame. -/
inductive Frame where
  | command (line : List UInt8) (wf : CommandLine line)
  | publish (channel digits content : List UInt8)
      (wf : PublishHeader channel digits content.length)
      (length_le : (publishLine channel digits).length ≤ 4094)

/-- The bytes of a frame. -/
def Frame.bytes : Frame → List UInt8
  | .command line _ => line ++ [10]
  | .publish channel digits content _ _ => publishLine channel digits ++ [10] ++ content ++ [10]

/-- The byte stream of a list of frames. -/
def streamOf (frames : List Frame) : List UInt8 := frames.flatMap Frame.bytes

/-- What the handler should do: take each line, and publish each content, up to the first
`QUIT`. -/
def frameLog : List Frame → List ReaderEvent
  | [] => []
  | .command line _ :: frames =>
      .command line none ::
        if dispatch true (.ofBuffer line) = .quit then [] else frameLog frames
  | .publish channel digits content _ _ :: frames =>
      .command (publishLine channel digits)
          (some (.ofBuffer channel, UInt64.ofNat content.length)) ::
        .publish (.ofBuffer channel) content :: frameLog frames

/-- The frames up to the first `QUIT`, the first of them at the position `p`, meet an
environment that keeps the handler in step. `sscanf` finds no content announced by a line that
is no line of a publish. The channel of a publish has no NUL byte, the `malloc` for its content
succeeds, and one `SSL_read` returns the whole content. -/
def InStep (E : Environment) : Nat → List Frame → Prop
  | _, [] => True
  | p, .command line _ :: frames =>
      announced line = none ∧
        (dispatch true (.ofBuffer line) = .quit ∨ InStep E (p + line.length + 1) frames)
  | p, .publish channel digits content _ _ :: frames =>
      let q := p + (publishLine channel digits).length + 1
      0 ∉ channel ∧ E.malloc q = true ∧ E.sslRead q content.length = content.length ∧
        InStep E (q + content.length + 1) frames

/-- The handler has left its loop, or it has taken every byte and waits for a new line. -/
def Settled (stream : List UInt8) (s : Reader) : Prop :=
  s.pc = none ∨ (s.pc = some (.line []) ∧ stream.drop s.position = [])

/-! ### Single reads -/

section
variable {E : Environment} {stream : List UInt8}

/-- An `SSL_read` of one byte returns one byte. -/
theorem sslRead_one (p : Nat) : E.sslRead p 1 = 1 := by
  have hpos := E.sslRead_pos p 1 (le_refl 1)
  have hle := E.sslRead_le p 1
  omega

/-- A byte of a line is read. -/
theorem next_line {p : Nat} {b : UInt8} {rest : List UInt8} (buffer : List UInt8)
    (h : stream.drop p = b :: rest) :
    (reader E stream).next ⟨some (.line buffer), p⟩ ()
      = some (⟨(afterRead (readLine buffer b)).1, p + 1⟩, (afterRead (readLine buffer b)).2) := by
  have hinput : E.input stream p (.line buffer) = some (.bytes [b]) := by
    have hne : stream.drop p ≠ [] := by simp [h]
    simp only [Environment.input]
    rw [if_neg hne, sslRead_one, h]
    rfl
  simp only [reader, Reader.next, Option.bind_some, hinput, readStep]
  rfl

/-- The stream after `k` more bytes. -/
theorem drop_add {p : Nat} {as rest : List UInt8} (h : stream.drop p = as ++ rest) :
    stream.drop (p + as.length) = rest := by
  rw [← List.drop_drop, h, List.drop_left]

/-- The handler reads the rest of a line and takes the whole line as a command. -/
theorem path_line_from (as : List UInt8) :
    ∀ (p : Nat) (buffer rest : List UInt8), stream.drop p = as ++ 10 :: rest → 10 ∉ as →
      buffer ++ as ≠ [] → (buffer ++ as).length ≤ 4094 →
      (reader E stream).Path ⟨some (.line buffer), p⟩
        [.command (buffer ++ as) (announced (buffer ++ as))]
        ⟨afterCommand (buffer ++ as), p + as.length + 1⟩ := by
  induction as with
  | nil =>
      intro p buffer rest hdrop _ hne _
      rw [List.append_nil] at hne ⊢
      have hread : readLine buffer 10 = .command buffer := by
        rw [readLine, if_pos rfl, if_neg hne]
      have hnext := next_line (E := E) buffer hdrop
      rw [hread] at hnext
      exact Machine.Path.step hnext
  | cons b as ih =>
      intro p buffer rest hdrop hnl hne hlen
      have hb : b ≠ 10 := fun h => hnl (by simp [h])
      have hread : readLine buffer b = .more (.line (buffer ++ [b])) := by
        have hlt : buffer.length + 1 < bufferSize - 1 := by
          simp only [List.length_append, List.length_cons] at hlen
          show buffer.length + 1 < 4095
          omega
        rw [readLine, if_neg hb, if_pos hlt]
      have hnext := next_line (E := E) buffer hdrop
      rw [hread] at hnext
      have hdrop' : stream.drop (p + [b].length) = as ++ 10 :: rest := drop_add hdrop
      have hassoc : buffer ++ b :: as = (buffer ++ [b]) ++ as := by simp
      rw [hassoc] at hne hlen ⊢
      have hrest := ih (p + 1) (buffer ++ [b]) rest hdrop' (fun h => hnl (by simp [h])) hne hlen
      rw [show p + (b :: as).length + 1 = p + 1 + as.length + 1 by
        rw [List.length_cons]; omega]
      exact Machine.Path.cons hnext hrest

/-- The handler reads a line and takes it as a command. -/
theorem path_line {p : Nat} {line rest : List UInt8} (hdrop : stream.drop p = line ++ 10 :: rest)
    (hnl : 10 ∉ line) (hne : line ≠ []) (hlen : line.length ≤ 4094) :
    (reader E stream).Path ⟨some (.line []), p⟩ [.command line (announced line)]
      ⟨afterCommand line, p + line.length + 1⟩ :=
  path_line_from line p [] rest hdrop hnl hne hlen

/-- A line that announces no content and is no `QUIT` leaves the handler at the next line. -/
theorem afterCommand_of_announced {line : List UInt8} (h : announced line = none)
    (hquit : dispatch true (.ofBuffer line) ≠ .quit) : afterCommand line = some (.line []) := by
  simp only [announced] at h
  simp only [afterCommand]
  cases hd : dispatch true (.ofBuffer line) with
  | publish channelName contentLen =>
      rw [hd] at h
      simp only [] at h
      split_ifs at h with hlarge
      simp only [handlePublish, if_pos hlarge]
  | quit => exact absurd hd hquit
  | auth _ => rfl
  | subscribe _ => rfl
  | attach _ => rfl
  | detach => rfl
  | error _ => rfl

/-! ### The content of a publish -/

/-- The content of a publish that comes in one `SSL_read`, and the byte after it. -/
theorem path_content {q : Nat} {content rest : List UInt8} (channelName : CString)
    (hdrop : stream.drop q = content ++ 10 :: rest) (hpos : 1 ≤ content.length)
    (hlen : content.length ≤ 65536) (hmalloc : E.malloc q = true)
    (hread : E.sslRead q content.length = content.length) :
    (reader E stream).Path ⟨some (.malloc channelName (UInt64.ofNat content.length)), q⟩
      [.publish channelName content] ⟨some (.line []), q + content.length + 1⟩ := by
  have hnat : (UInt64.ofNat content.length).toNat = content.length :=
    UInt64.toNat_ofNat_of_lt' (lt_of_le_of_lt hlen (by decide))
  have hne : content ≠ [] := by
    rintro rfl
    simp at hpos
  have hstart : (reader E stream).next
      ⟨some (.malloc channelName (UInt64.ofNat content.length)), q⟩ ()
      = some (⟨some (.body channelName (UInt64.ofNat content.length)), q⟩, none) := by
    simp [reader, Reader.next, Environment.input, hmalloc, readStep, afterRead, Input.size]
  have hbody : (reader E stream).next
      ⟨some (.body channelName (UInt64.ofNat content.length)), q⟩ ()
      = some (⟨some (.newline channelName content), q + content.length⟩, none) := by
    have htake : (stream.drop q).take (E.sslRead q content.length) = content := by
      rw [hdrop, hread, List.take_left]
    have hdrop' : stream.drop q ≠ [] := by simp [hdrop]
    simp only [reader, Reader.next, Environment.input, hnat, Option.bind_some, if_neg hdrop', htake]
    simp [readStep, hnat, hne, afterRead, Input.size]
  have hnewline : (reader E stream).next ⟨some (.newline channelName content), q + content.length⟩ ()
      = some (⟨some (.line []), q + content.length + 1⟩, some (.publish channelName content)) := by
    have hdrop' := drop_add hdrop
    have hinput : E.input stream (q + content.length) (.newline channelName content)
        = some (.bytes [10]) := by
      have hne' : stream.drop (q + content.length) ≠ [] := by simp only [hdrop']; simp
      simp only [Environment.input]
      rw [if_neg hne', sslRead_one, hdrop']
      rfl
    simp only [reader, Reader.next, Option.bind_some, hinput, readStep]
    rfl
  exact .cons hstart (.cons hbody (.step hnewline))

/-- When the `malloc` fails or the `SSL_read` returns less than the content, the handler is at
the next line with nothing published. -/
theorem path_content_failed {q : Nat} {content rest : List UInt8} (channelName : CString)
    (hdrop : stream.drop q = content ++ 10 :: rest) (hpos : 1 ≤ content.length)
    (hlen : content.length ≤ 65536)
    (hfail : ¬ (E.malloc q = true ∧ E.sslRead q content.length = content.length)) :
    ∃ q', (reader E stream).Path
      ⟨some (.malloc channelName (UInt64.ofNat content.length)), q⟩ [] ⟨some (.line []), q'⟩ := by
  have hnat : (UInt64.ofNat content.length).toNat = content.length :=
    UInt64.toNat_ofNat_of_lt' (lt_of_le_of_lt hlen (by decide))
  cases hmalloc : E.malloc q with
  | false =>
      have hstart : (reader E stream).next
          ⟨some (.malloc channelName (UInt64.ofNat content.length)), q⟩ ()
          = some (⟨some (.line []), q⟩, none) := by
        simp [reader, Reader.next, Environment.input, hmalloc, readStep, afterRead, Input.size]
      exact ⟨q, .step hstart⟩
  | true =>
      have hstart : (reader E stream).next
          ⟨some (.malloc channelName (UInt64.ofNat content.length)), q⟩ ()
          = some (⟨some (.body channelName (UInt64.ofNat content.length)), q⟩, none) := by
        simp [reader, Reader.next, Environment.input, hmalloc, readStep, afterRead, Input.size]
      -- The bytes of the short read: some, and fewer than the content has.
      have hle := E.sslRead_le q content.length
      have hlt : E.sslRead q content.length < content.length :=
        lt_of_le_of_ne hle fun heq => hfail ⟨hmalloc, heq⟩
      have hread := E.sslRead_pos q content.length hpos
      set bs := (stream.drop q).take (E.sslRead q content.length) with hbs
      have hbslen : bs.length = E.sslRead q content.length := by
        rw [hbs, List.length_take, hdrop, List.length_append]
        omega
      have hbody : (reader E stream).next
          ⟨some (.body channelName (UInt64.ofNat content.length)), q⟩ ()
          = some (⟨some (.line []), q + bs.length⟩, none) := by
        have hdrop' : stream.drop q ≠ [] := by simp [hdrop]
        have hne : bs ≠ [] := by
          intro h0
          rw [h0] at hbslen
          simp at hbslen
          omega
        have hcond : ¬ (bs = [] ∨ content.length < bs.length) := by
          rw [not_or]
          exact ⟨hne, by omega⟩
        simp only [reader, Reader.next, Environment.input, hnat, Option.bind_some, if_neg hdrop',
          ← hbs, readStep]
        rw [if_neg hcond, if_neg (by omega)]
        rfl
      exact ⟨q + bs.length, .cons hstart (.step hbody)⟩

/-- A handler that reads a line shows nothing before it takes a command. -/
theorem path_from_line {s s' : Reader} {tr : List ReaderEvent}
    (h : (reader E stream).Path s tr s') :
    ∀ buffer, s.pc = some (.line buffer) →
      tr = [] ∨ ∃ line content tr', tr = .command line content :: tr' := by
  induction h with
  | nil => exact fun _ _ => Or.inl rfl
  | @cons s s₁ s' a e tr hnext hpath ih =>
      intro buffer hpc
      simp only [reader, Reader.next, hpc, Option.bind_some, Option.bind_eq_some_iff,
        Option.map_eq_some_iff] at hnext
      obtain ⟨input, -, r, hr, heq⟩ := hnext
      obtain ⟨rfl, rfl⟩ := Prod.mk.inj heq
      cases r with
      | more pc =>
          -- More of the line.
          have hline : ∃ buffer', pc = .line buffer' := by
            cases input with
            | bytes bs =>
                match bs, hr with
                | [b], hr =>
                    simp only [readStep, readLine, Option.some.injEq] at hr
                    split_ifs at hr
                    exact ⟨_, (ReadResult.more.inj hr).symm⟩
            | closed => cases hr
            | memory => cases hr
            | noMemory => cases hr
          obtain ⟨buffer', rfl⟩ := hline
          exact ih buffer' rfl
      | command line => exact Or.inr ⟨line, announced line, tr, rfl⟩
      | leave =>
          cases hpath with
          | nil => exact Or.inl rfl
          | cons hnext' _ => cases hnext'
      | publish channelName content =>
          cases input with
          | bytes bs =>
              match bs, hr with
              | [b], hr =>
                  simp only [readStep, readLine, Option.some.injEq] at hr
                  split_ifs at hr
          | closed => cases hr
          | memory => cases hr
          | noMemory => cases hr
      | failed e => exact ih [] rfl

/-! ### Whole streams -/

/-- The line of a publish is not empty and has no newline. -/
theorem publishLine_line {channel digits : List UInt8} {len : Nat}
    (h : PublishHeader channel digits len) :
    publishLine channel digits ≠ [] ∧ 10 ∉ publishLine channel digits := by
  have hname : (10 : UInt8) ∉ ascii "PUBLISH" := by decide
  have hchannel : (10 : UInt8) ∉ channel := fun hmem =>
    absurd (h.channel_word 10 hmem) (by decide)
  have hdigits : (10 : UInt8) ∉ digits := fun hmem =>
    absurd (h.digits_isDigit 10 hmem) (by decide)
  constructor
  · simp [publishLine]
  · simp only [publishLine, List.mem_append, List.mem_cons, not_or]
    exact ⟨hname, by decide, hchannel, by decide, hdigits⟩

/-- The stream after some bytes and a newline. -/
theorem drop_newline {p : Nat} {as rest : List UInt8} (h : stream.drop p = as ++ 10 :: rest) :
    stream.drop (p + as.length + 1) = rest := by
  have hsplit : stream.drop p = (as ++ [10]) ++ rest := by
    rw [h]
    simp
  have hdrop := drop_add hsplit
  rwa [List.length_append, ← Nat.add_assoc] at hdrop

/-- Where the content of a publish starts. -/
theorem drop_publish {p : Nat} {channel digits content : List UInt8}
    {wf : PublishHeader channel digits content.length}
    {hlen : (publishLine channel digits).length ≤ 4094} {frames : List Frame}
    (h : stream.drop p = streamOf (.publish channel digits content wf hlen :: frames)) :
    stream.drop p = publishLine channel digits ++ 10 :: (content ++ 10 :: streamOf frames) ∧
    stream.drop (p + (publishLine channel digits).length + 1) = content ++ 10 :: streamOf frames := by
  have hsplit : stream.drop p
      = publishLine channel digits ++ 10 :: (content ++ 10 :: streamOf frames) := by
    rw [h]
    simp [streamOf, Frame.bytes]
  exact ⟨hsplit, drop_newline hsplit⟩

/-- The stream after a frame without a content. -/
theorem drop_command {p : Nat} {line : List UInt8} {wf : CommandLine line} {frames : List Frame}
    (h : stream.drop p = streamOf (.command line wf :: frames)) :
    stream.drop p = line ++ 10 :: streamOf frames ∧
    stream.drop (p + line.length + 1) = streamOf frames := by
  have hsplit : stream.drop p = line ++ 10 :: streamOf frames := by
    rw [h]
    simp [streamOf, Frame.bytes]
  exact ⟨hsplit, drop_newline hsplit⟩

/-- A handler that is kept in step does what the frames say. -/
theorem path_frames (frames : List Frame) :
    ∀ p, stream.drop p = streamOf frames → InStep E p frames →
      ∃ s, (reader E stream).Path ⟨some (.line []), p⟩ (frameLog frames) s ∧ Settled stream s := by
  induction frames with
  | nil => exact fun p hdrop _ => ⟨_, .nil, Or.inr ⟨rfl, hdrop⟩⟩
  | cons frame frames ih =>
      intro p hdrop hstep
      cases frame with
      | command line wf =>
          obtain ⟨hline, hrest⟩ := drop_command hdrop
          obtain ⟨hannounced, hquit⟩ := hstep
          have hpath := path_line (E := E) hline wf.no_newline wf.ne_nil wf.length_le
          rw [hannounced] at hpath
          by_cases hq : dispatch true (.ofBuffer line) = .quit
          · have hleft : afterCommand line = none := by simp only [afterCommand, hq]
            refine ⟨⟨afterCommand line, p + line.length + 1⟩, ?_, Or.inl hleft⟩
            rw [frameLog, if_pos hq]
            exact hpath
          · rw [afterCommand_of_announced hannounced hq] at hpath
            obtain ⟨s, hpath', hs⟩ := ih _ hrest (hquit.resolve_left hq)
            refine ⟨s, ?_, hs⟩
            rw [frameLog, if_neg hq]
            exact hpath.trans hpath'
      | publish channel digits content wf hlen =>
          obtain ⟨hline, hcontent⟩ := drop_publish hdrop
          obtain ⟨hnul, hmalloc, hread, hnext⟩ := hstep
          obtain ⟨hne, hnl⟩ := publishLine_line wf
          have hpath := path_line (E := E) hline hnl hne hlen
          rw [announced_publishLine wf hnul, afterCommand_publishLine wf hnul] at hpath
          have hpath' := path_content (.ofBuffer channel) hcontent wf.len_pos wf.len_le hmalloc hread
          obtain ⟨s, hpath'', hs⟩ := ih _ (drop_newline hcontent) hnext
          exact ⟨s, (hpath.trans hpath').trans hpath'', hs⟩

/-- A handler that is not kept in step does something else. The first frame that breaks the
condition shows in the log. -/
theorem log_ne_frameLog (frames : List Frame) :
    ∀ p tr s, stream.drop p = streamOf frames → ¬ InStep E p frames →
      (reader E stream).Path ⟨some (.line []), p⟩ tr s → (reader E stream).Halted s →
      tr ≠ frameLog frames := by
  induction frames with
  | nil => exact fun p tr s _ hstep _ _ => absurd trivial hstep
  | cons frame frames ih =>
      intro p tr s hdrop hstep hpath hhalt
      cases frame with
      | command line wf =>
          obtain ⟨hline, hrest⟩ := drop_command hdrop
          have hfirst := path_line (E := E) hline wf.no_newline wf.ne_nil wf.length_le
          obtain ⟨tr', rfl, hpath'⟩ := hfirst.continue hpath hhalt
          intro heq
          rw [frameLog, List.singleton_append, List.cons.injEq] at heq
          have hannounced : announced line = none := (ReaderEvent.command.inj heq.1).2
          have hq : dispatch true (.ofBuffer line) ≠ .quit := fun hq =>
            hstep ⟨hannounced, Or.inl hq⟩
          rw [afterCommand_of_announced hannounced hq] at hpath'
          rw [if_neg hq] at heq
          exact ih _ tr' s hrest (fun h => hstep ⟨hannounced, Or.inr h⟩) hpath' hhalt heq.2
      | publish channel digits content wf hlen =>
          obtain ⟨hline, hcontent⟩ := drop_publish hdrop
          obtain ⟨hne, hnl⟩ := publishLine_line wf
          have hfirst := path_line (E := E) hline hnl hne hlen
          obtain ⟨tr', rfl, hpath'⟩ := hfirst.continue hpath hhalt
          intro heq
          rw [frameLog, List.singleton_append, List.cons.injEq] at heq
          have hannounced := (ReaderEvent.command.inj heq.1).2
          have hnul : 0 ∉ channel := by
            intro hmem
            rw [announced_publishLine_of_nul wf hmem] at hannounced
            cases hannounced
          rw [afterCommand_publishLine wf hnul] at hpath'
          by_cases hread : E.malloc (p + (publishLine channel digits).length + 1) = true ∧
              E.sslRead (p + (publishLine channel digits).length + 1) content.length
                = content.length
          · -- The content is published, so a later frame breaks the condition.
            have hsecond := path_content (.ofBuffer channel) hcontent wf.len_pos wf.len_le hread.1
              hread.2
            obtain ⟨tr'', rfl, hpath''⟩ := hsecond.continue hpath' hhalt
            have hrestlog : tr'' = frameLog frames := by
              have htail := heq.2
              rw [List.singleton_append, List.cons.injEq] at htail
              exact htail.2
            exact ih _ tr'' s (drop_newline hcontent) (fun h => hstep ⟨hnul, hread.1, hread.2, h⟩) hpath'' hhalt
              hrestlog
          · -- The next thing in the log is a command line and not the publish.
            obtain ⟨q', hsecond⟩ := path_content_failed (E := E) (.ofBuffer channel) hcontent
              wf.len_pos wf.len_le hread
            obtain ⟨tr'', htr'', hpath''⟩ := hsecond.continue hpath' hhalt
            rw [List.nil_append] at htr''
            rw [htr''] at heq
            rcases path_from_line hpath'' [] rfl with h0 | ⟨line, c, tr₃, h0⟩
            · rw [h0] at heq
              cases heq.2
            · rw [h0] at heq
              cases (List.cons.inj heq.2).1

end

/-! ### The end of the run -/

/-- The steps a handler can still take, at most. -/
def stepsLeft (stream : List UInt8) (s : Reader) : Nat :=
  2 * (stream.length - s.position) + (match s.pc with
    | some (.malloc _ _) => 1
    | _ => 0)

/-- Every step takes a byte of the stream, or it is the `malloc` of a publish. -/
theorem stepsLeft_lt (E : Environment) (stream : List UInt8) (s : Reader) (a : Unit) (s' : Reader)
    (e : Option ReaderEvent) (h : (reader E stream).next s a = some (s', e)) :
    stepsLeft stream s' < stepsLeft stream s := by
  obtain ⟨pc, p⟩ := s
  cases pc with
  | none => cases h
  | some pc =>
      simp only [reader, Reader.next, Option.bind_some, Option.bind_eq_some_iff,
        Option.map_eq_some_iff] at h
      obtain ⟨input, hinput, r, hr, heq⟩ := h
      obtain ⟨rfl, -⟩ := Prod.mk.inj heq
      have hread : ∀ n, 1 ≤ n →
          (if stream.drop p = [] then none
            else some (Input.bytes ((stream.drop p).take (E.sslRead p n)))) = some input →
          1 ≤ input.size ∧ 1 ≤ stream.length - p := by
        intro n hn hsome
        have hpos := E.sslRead_pos p n hn
        split_ifs at hsome with hend
        rw [← Option.some.inj hsome]
        have hlen : 1 ≤ (stream.drop p).length := List.length_pos_iff.mpr hend
        rw [List.length_drop] at hlen
        simp only [Input.size, List.length_take, List.length_drop]
        omega
      have hweight : ∀ pc' : Option ReadPc, (match pc' with
          | some (.malloc _ _) => 1
          | _ => 0) ≤ 1 := by
        intro pc'
        split <;> omega
      have hle := hweight (afterRead r).1
      cases pc with
      | line buffer =>
          obtain ⟨h₁, h₂⟩ := hread 1 (le_refl 1) hinput
          simp only [stepsLeft] at hle ⊢
          omega
      | newline channelName content =>
          obtain ⟨h₁, h₂⟩ := hread 1 (le_refl 1) hinput
          simp only [stepsLeft] at hle ⊢
          omega
      | body channelName contentLen =>
          have hn : 1 ≤ contentLen.toNat := by
            by_contra hzero
            have h0 : contentLen.toNat = 0 := by omega
            have hle0 := E.sslRead_le p contentLen.toNat
            simp only [Environment.input] at hinput
            split_ifs at hinput
            obtain rfl := Option.some.inj hinput
            have hs0 : E.sslRead p contentLen.toNat = 0 := by omega
            rw [hs0, List.take_zero] at hr
            simp [readStep] at hr
          obtain ⟨h₁, h₂⟩ := hread _ hn hinput
          simp only [stepsLeft] at hle ⊢
          omega
      | malloc channelName contentLen =>
          have hpc : (afterRead r).1 = some (.body channelName contentLen) ∨
              (afterRead r).1 = some (.line []) := by
            simp only [Environment.input] at hinput
            cases hm : E.malloc p with
            | true =>
                rw [hm] at hinput
                obtain rfl := Option.some.inj hinput
                obtain rfl := Option.some.inj hr
                exact Or.inl rfl
            | false =>
                rw [hm] at hinput
                obtain rfl := Option.some.inj hinput
                obtain rfl := Option.some.inj hr
                exact Or.inr rfl
          simp only [stepsLeft]
          rcases hpc with hpc | hpc
          · rw [hpc]
            simp only []
            omega
          · rw [hpc]
            simp only []
            omega

/-- A handler whose client sends well-formed frames comes to a last state, and there is only
one. What it did is what the frames say, and it is in step at the end, if and only if the
environment and the frames keep it in step. -/
theorem stream_framing (E : Environment) (frames : List Frame) :
    ∃ tr s, (reader E (streamOf frames)).Run tr s ∧ (reader E (streamOf frames)).Halted s ∧
      (∀ tr' s', (reader E (streamOf frames)).Run tr' s' →
        (reader E (streamOf frames)).Halted s' → tr' = tr ∧ s' = s) ∧
      (tr = frameLog frames ∧ Settled (streamOf frames) s ↔ InStep E 0 frames) := by
  obtain ⟨tr, s, hpath, hhalt⟩ := Machine.exists_halted (stepsLeft (streamOf frames))
    (stepsLeft_lt E (streamOf frames)) (reader E (streamOf frames)).init
  have hrun := hpath.run .nil
  refine ⟨tr, s, hrun, hhalt, ?_, ?_⟩
  · intro tr' s' hrun' hhalt'
    obtain ⟨tr'', htr, hpath'⟩ := hpath.continue hrun'.path hhalt'
    cases hpath' with
    | nil => exact ⟨by rw [htr, List.append_nil], rfl⟩
    | @cons _ _ _ a _ _ hnext _ =>
        rw [hhalt a] at hnext
        cases hnext
  · constructor
    · intro hlog
      by_contra hstep
      exact log_ne_frameLog frames 0 tr s rfl hstep hpath hhalt hlog.1
    · intro hstep
      obtain ⟨s', hpath', hs'⟩ := path_frames frames 0 rfl hstep
      obtain ⟨tr', htr, hrest⟩ := Machine.Path.continue hpath' hpath hhalt
      cases hrest with
      | nil => exact ⟨by rw [htr, List.append_nil], hs'⟩
      | cons hnext _ =>
          -- A settled handler takes no step.
          rcases hs' with hs' | ⟨hs', hend⟩
          · simp [reader, Reader.next, hs'] at hnext
          · simp only [reader, Reader.next, hs', Environment.input, Option.bind_some, hend,
              if_true, Option.bind_none] at hnext
            cases hnext

/-- A client that publishes the two bytes `hi` on the channel `c`. -/
def hiFrame : Frame :=
  .publish (ascii "c") (ascii "2") (ascii "hi")
    { channel_ne_nil := by decide
      channel_length := by decide
      channel_word := by decide +kernel
      digits_ne_nil := by decide
      digits_isDigit := by decide +kernel
      digits_value := by decide
      len_pos := by decide
      len_le := by decide }
    (by decide)

/-- A connection that delivers one byte at a time. -/
def byteByByte : Environment where
  sslRead _ n := min n 1
  sslRead_pos _ n hn := by omega
  sslRead_le _ n := by omega
  malloc _ := true

/-- A content that comes in two reads is not published, and its second byte is taken for a
command line. -/
theorem short_read_desynchronises :
    ∃ tr s, (reader byteByByte (streamOf [hiFrame])).Run tr s ∧
      (reader byteByByte (streamOf [hiFrame])).Halted s ∧ tr ≠ frameLog [hiFrame] ∧
      .publish (.ofBuffer (ascii "c")) (ascii "hi") ∉ tr ∧ .command (ascii "i") none ∈ tr := by
  obtain ⟨tr, s, hrun, hp⟩ := (reader byteByByte (streamOf [hiFrame])).run_of_exec
    (List.replicate 16 ()) (fun tr s =>
      decide (tr ≠ frameLog [hiFrame]) &&
      decide (.publish (.ofBuffer (ascii "c")) (ascii "hi") ∉ tr) &&
      decide (.command (ascii "i") none ∈ tr) &&
      decide (s.next byteByByte (streamOf [hiFrame]) = none)) (by decide +kernel)
  simp only [Bool.and_eq_true, decide_eq_true_eq] at hp
  obtain ⟨⟨⟨hlog, hpublish⟩, hcommand⟩, hhalt⟩ := hp
  exact ⟨tr, s, hrun, fun _ => hhalt, hlog, hpublish, hcommand⟩

end Miez.Proofs.NetworkServer
