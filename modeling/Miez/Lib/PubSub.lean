import Miez.Lib.Machine

/-!
# `Miez.Lib.PubSub`: publish and subscribe with atomic delivery

Subscribers `ι`, topics `τ` and messages `μ`. A subscriber joins a topic with an empty queue, and
leaves it again. A publish appends its message to the queues of all subscribers of the topic in
one step, and a take removes the first message of one queue. What a subscriber still gets after it
has left is open (`Action.late`).

`next_queue` and `next_joined` say what one step does to a queue. From them comes the stream rule
(`stream_of_simulation`), for every machine that simulates this one: what a subscriber has taken
since it joined, followed by its queue, is what was published on its topic since it joined.
-/

set_option autoImplicit false

namespace Miez.Lib.PubSub

/-- A subscriber: its topic and the messages that it has not taken yet. -/
structure Subscriber (τ μ : Type) where
  topic : τ
  queue : List μ
deriving DecidableEq

/-- The subscribers that are there. -/
abbrev State (ι τ μ : Type) : Type := ι → Option (Subscriber τ μ)

/-- One step. `late x msg` gives `msg` to a subscriber that is not there. -/
inductive Action (ι τ μ : Type) where
  | join (x : ι) (topic : τ)
  | leave (x : ι)
  | publish (topic : τ) (msg : μ)
  | take (x : ι)
  | late (x : ι) (msg : μ)

/-- What an observer sees. -/
inductive Event (ι τ μ : Type) where
  | published (topic : τ) (msg : μ)
  | taken (x : ι) (msg : μ)
deriving DecidableEq

section
variable {ι τ μ : Type} [DecidableEq ι] [DecidableEq τ]

/-- A publish, as one subscriber sees it. -/
def Subscriber.receive (topic : τ) (msg : μ) (sub : Subscriber τ μ) : Subscriber τ μ :=
  if sub.topic = topic then { sub with queue := sub.queue ++ [msg] } else sub

/-- One step. -/
def next (s : State ι τ μ) : Action ι τ μ → Option (State ι τ μ × Option (Event ι τ μ))
  | .join x topic =>
      if (s x).isNone then some (Function.update s x (some ⟨topic, []⟩), none) else none
  | .leave x => some (Function.update s x none, none)
  | .publish topic msg =>
      some (fun x => (s x).map (Subscriber.receive topic msg), some (.published topic msg))
  | .take x =>
      match s x with
      | some ⟨topic, msg :: rest⟩ =>
          some (Function.update s x (some ⟨topic, rest⟩), some (.taken x msg))
      | _ => none
  | .late x msg => if (s x).isNone then some (s, some (.taken x msg)) else none

/-- The machine, without subscribers at the start. -/
def machine (ι τ μ : Type) [DecidableEq ι] [DecidableEq τ] :
    Machine (State ι τ μ) (Action ι τ μ) (Event ι τ μ) where
  init := fun _ => none
  next := next

/-! ### What is published and what is taken -/

/-- The message that the event publishes on a topic. -/
def publishedOn (topic : τ) : Event ι τ μ → Option μ
  | .published topic' msg => if topic' = topic then some msg else none
  | .taken _ _ => none

/-- The message that the event takes from the queue of `x`. -/
def takenBy (x : ι) : Event ι τ μ → Option μ
  | .taken y msg => if y = x then some msg else none
  | .published _ _ => none

/-- The messages published on a topic, in order. -/
def published (tr : List (Event ι τ μ)) (topic : τ) : List μ := tr.filterMap (publishedOn topic)

/-- The messages that `x` has taken, in order. -/
def taken (tr : List (Event ι τ μ)) (x : ι) : List μ := tr.filterMap (takenBy x)

end

/-- The messages published on a topic after one more step. -/
theorem published_append {ι τ μ : Type} [DecidableEq τ] (tr : List (Event ι τ μ))
    (e : Option (Event ι τ μ)) (topic : τ) :
    published (tr ++ e.toList) topic
      = published tr topic ++ (e.bind (publishedOn topic)).toList :=
  filterMap_append_toList _ tr e

/-- The messages taken from a queue after one more step. -/
theorem taken_append {ι τ μ : Type} [DecidableEq ι] (tr : List (Event ι τ μ))
    (e : Option (Event ι τ μ)) (x : ι) :
    taken (tr ++ e.toList) x = taken tr x ++ (e.bind (takenBy x)).toList :=
  filterMap_append_toList _ tr e

section
variable {ι τ μ : Type} [DecidableEq ι] [DecidableEq τ]

/-- What a step does to the queue of a subscriber that is there before it and after it: the
message that is taken was the first one, and the message that is published becomes the last. -/
theorem next_queue {s s' : State ι τ μ} {a : Action ι τ μ} {e : Option (Event ι τ μ)}
    (h : next s a = some (s', e)) {x : ι} {sub sub' : Subscriber τ μ} (hx : s x = some sub)
    (hx' : s' x = some sub') :
    sub'.topic = sub.topic ∧ (e.bind (takenBy x)).toList ++ sub'.queue
      = sub.queue ++ (e.bind (publishedOn sub.topic)).toList := by
  cases a with
  | join y topic =>
      simp only [next, Option.ite_none_right_eq_some, Option.some.injEq, Prod.mk.injEq] at h
      obtain ⟨hy, rfl, rfl⟩ := h
      have hne : x ≠ y := by
        intro hxy
        rw [← hxy, hx] at hy
        cases hy
      rw [Function.update_of_ne hne, hx] at hx'
      obtain rfl := Option.some.inj hx'
      simp
  | leave y =>
      simp only [next, Option.some.injEq, Prod.mk.injEq] at h
      obtain ⟨rfl, rfl⟩ := h
      have hne : x ≠ y := by
        intro hxy
        rw [hxy, Function.update_self] at hx'
        cases hx'
      rw [Function.update_of_ne hne, hx] at hx'
      obtain rfl := Option.some.inj hx'
      simp
  | publish topic msg =>
      simp only [next, Option.some.injEq, Prod.mk.injEq] at h
      obtain ⟨rfl, rfl⟩ := h
      have hsub : Subscriber.receive topic msg sub = sub' := by simpa [hx] using hx'
      subst hsub
      by_cases htopic : sub.topic = topic
      · simp [Subscriber.receive, takenBy, publishedOn, htopic]
      · simp [Subscriber.receive, takenBy, publishedOn, htopic, Ne.symm htopic]
  | take y =>
      cases hy : s y with
      | none => simp [next, hy] at h
      | some sub₀ =>
          obtain ⟨topic, queue⟩ := sub₀
          cases queue with
          | nil => simp [next, hy] at h
          | cons msg rest =>
              simp only [next, hy, Option.some.injEq, Prod.mk.injEq] at h
              obtain ⟨rfl, rfl⟩ := h
              by_cases hxy : x = y
              · subst hxy
                rw [Function.update_self] at hx'
                obtain rfl := Option.some.inj hx'
                obtain rfl := Option.some.inj (hx.symm.trans hy)
                simp [takenBy, publishedOn]
              · rw [Function.update_of_ne hxy, hx] at hx'
                obtain rfl := Option.some.inj hx'
                simp [takenBy, publishedOn, Ne.symm hxy]
  | late y msg =>
      simp only [next, Option.ite_none_right_eq_some, Option.some.injEq, Prod.mk.injEq] at h
      obtain ⟨hy, rfl, rfl⟩ := h
      have hne : y ≠ x := by
        intro hxy
        rw [hxy, hx] at hy
        cases hy
      rw [hx] at hx'
      obtain rfl := Option.some.inj hx'
      simp [takenBy, publishedOn, hne]

/-- A subscriber is not there before it joins, and its queue is empty when it has joined. -/
theorem next_joined {s s' : State ι τ μ} {a : Action ι τ μ} {e : Option (Event ι τ μ)}
    (h : next s a = some (s', e)) {x : ι} {sub : Subscriber τ μ} (hx : s x = none)
    (hx' : s' x = some sub) : e = none ∧ sub.queue = [] := by
  cases a with
  | join y topic =>
      simp only [next, Option.ite_none_right_eq_some, Option.some.injEq, Prod.mk.injEq] at h
      obtain ⟨-, rfl, rfl⟩ := h
      by_cases hxy : x = y
      · rw [hxy, Function.update_self] at hx'
        obtain rfl := Option.some.inj hx'
        exact ⟨rfl, rfl⟩
      · rw [Function.update_of_ne hxy, hx] at hx'
        cases hx'
  | leave y =>
      simp only [next, Option.some.injEq, Prod.mk.injEq] at h
      obtain ⟨rfl, -⟩ := h
      by_cases hxy : x = y
      · rw [hxy, Function.update_self] at hx'
        cases hx'
      · rw [Function.update_of_ne hxy, hx] at hx'
        cases hx'
  | publish topic msg =>
      simp only [next, Option.some.injEq, Prod.mk.injEq] at h
      obtain ⟨rfl, -⟩ := h
      simp [hx] at hx'
  | take y =>
      cases hy : s y with
      | none => simp [next, hy] at h
      | some sub₀ =>
          obtain ⟨topic, queue⟩ := sub₀
          cases queue with
          | nil => simp [next, hy] at h
          | cons msg rest =>
              simp only [next, hy, Option.some.injEq, Prod.mk.injEq] at h
              obtain ⟨rfl, -⟩ := h
              have hxy : x ≠ y := by
                intro hxy
                rw [hxy, hy] at hx
                cases hx
              rw [Function.update_of_ne hxy, hx] at hx'
              cases hx'
  | late y msg =>
      simp only [next, Option.ite_none_right_eq_some, Option.some.injEq, Prod.mk.injEq] at h
      obtain ⟨-, rfl, -⟩ := h
      rw [hx] at hx'
      cases hx'

/-! ### The stream of a subscriber -/

/-- The stream rule. The machine `M` simulates publish and subscribe: `f` reads the subscribers out
of its states and `g` reads the events out of its own. A subscriber that is there has joined in
some step of the run, and what it has taken since then, with its queue, is what was published on
its topic since then: in order, without a gap and without a repetition. -/
theorem stream_of_simulation {σ α ε : Type} {M : Machine σ α ε} {K : σ → α → Prop}
    (f : σ → State ι τ μ) (g : ε → Option (Event ι τ μ)) (hinit : ∀ x, f M.init x = none)
    (hsim : ∀ tr s a s' e, M.RunIf K tr s → K s a → M.next s a = some (s', e) →
      (∃ a', next (f s) a' = some (f s', e.bind g)) ∨ (f s' = f s ∧ e.bind g = none))
    {tr : List ε} {s : σ} (h : M.RunIf K tr s) {x : ι} {sub : Subscriber τ μ}
    (hx : f s x = some sub) :
    ∃ pre post s₀ a s₁ e, tr = (pre ++ e.toList) ++ post ∧ M.RunIf K pre s₀ ∧ K s₀ a ∧
      M.next s₀ a = some (s₁, e) ∧ f s₀ x = none ∧ (f s₁ x).isSome = true ∧
      taken (post.filterMap g) x ++ sub.queue = published (post.filterMap g) sub.topic := by
  refine h.induction (I := fun tr s => ∀ sub, f s x = some sub →
    ∃ pre post s₀ a s₁ e, tr = (pre ++ e.toList) ++ post ∧ M.RunIf K pre s₀ ∧ K s₀ a ∧
      M.next s₀ a = some (s₁, e) ∧ f s₀ x = none ∧ (f s₁ x).isSome = true ∧
      taken (post.filterMap g) x ++ sub.queue = published (post.filterMap g) sub.topic) ?_ ?_ sub hx
  · intro sub hsub
    rw [hinit] at hsub
    cases hsub
  · intro tr s a s' e hrun hinv hK hnext sub' hsub'
    cases hsub : f s x with
    | none =>
        -- The stream starts with this step.
        have hqueue : sub'.queue = [] := by
          rcases hsim tr s a s' e hrun hK hnext with ⟨a', ha'⟩ | ⟨hsame, -⟩
          · exact (next_joined ha' hsub hsub').2
          · rw [hsame, hsub] at hsub'
            cases hsub'
        refine ⟨tr, [], s, a, s', e, by simp, hrun, hK, hnext, hsub, by rw [hsub']; rfl, ?_⟩
        simp [taken, published, hqueue]
    | some sub =>
        obtain ⟨pre, post, s₀, a₀, s₁, e₀, rfl, hrun₀, hK₀, hnext₀, hbefore, hafter, hstream⟩ :=
          hinv sub hsub
        refine ⟨pre, post ++ e.toList, s₀, a₀, s₁, e₀, List.append_assoc _ _ _, hrun₀, hK₀, hnext₀,
          hbefore, hafter, ?_⟩
        rcases hsim _ s a s' e hrun hK hnext with ⟨a', ha'⟩ | ⟨hsame, he⟩
        · obtain ⟨htopic, hqueue⟩ := next_queue ha' hsub hsub'
          calc taken ((post ++ e.toList).filterMap g) x ++ sub'.queue
              = taken (post.filterMap g) x
                  ++ (((e.bind g).bind (takenBy x)).toList ++ sub'.queue) := by
                rw [filterMap_append_toList, taken_append, List.append_assoc]
            _ = (taken (post.filterMap g) x ++ sub.queue)
                  ++ ((e.bind g).bind (publishedOn sub.topic)).toList := by
                rw [hqueue, List.append_assoc]
            _ = published ((post ++ e.toList).filterMap g) sub'.topic := by
                rw [hstream, htopic, filterMap_append_toList, published_append]
        · rw [hsame, hsub] at hsub'
          obtain rfl := Option.some.inj hsub'
          rw [filterMap_append_of_none he]
          exact hstream

end

end Miez.Lib.PubSub
