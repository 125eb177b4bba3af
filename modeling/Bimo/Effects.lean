import Bimo.Completion

/-!
The messages a worker sends, across crashes, new sessions and replays.

The id of such a message is made from the delivery it was asked for in and from all it says, so
there is one file for one effect, whoever asks and however often. A result is put on record after
the effect is in its inbox, and the worker is told after that. What the worker is told the second
time goes by the session and the id of the call, which the worker chose.
-/

namespace Bimo.Runs

open Factory (PodManifest)
open Store (MessageEnvelope SessionIdentity ToolRecord inboxIds clean)
open Pod (SendMessageArgs effectMessage argsDigest)
open Wire (Frame)

variable {digest : String → String} {s t : Site} {g g' : Doing} {o : Call} {r : o.Ret}
  {fingerprint : PodManifest → Except String String} {runs : Command → Prop}

/-- The message a tool call asks for, as an answer to the delivery it is made in. -/
def EffectOf (f : Frame) (m : MessageEnvelope) : Prop :=
  m.effectId ≠ none ∧ ∃ a d, sendCall f = some a ∧ f.requestId = some d ∧ m.replyTo = some d ∧
    m.source = f.pod ∧ m.destination = a.destination ∧ m.kind = a.kind ∧ m.payload = a.payload

lemma effectOf_effectMessage {f : Frame} {a : SendMessageArgs} {i : SessionIdentity} {d : String}
    (ha : sendCall f = some a) (hi : i.pod = f.pod) (hd : f.requestId = some d) :
    EffectOf f (effectMessage digest i d a) :=
  ⟨nofun, a, d, ha, hd, rfl, hi, rfl, rfl, rfl⟩

/-- What an effect says is what it is kept under. -/
lemma effectMessage_congr {i i' : SessionIdentity} {a a' : SendMessageArgs} {d : String}
    (hpod : i.pod = i'.pod) (hto : a.destination = a'.destination) (hkind : a.kind = a'.kind)
    (hpayload : a.payload = a'.payload) :
    effectMessage digest i d a = effectMessage digest i' d a' := by
  simp only [effectMessage, Pod.effectId, Pod.effectKey, hpod, hto, hkind, hpayload]

/-! ### Where effects and results come from -/

section

variable (digest)

/-- A user's message, or an effect a worker asked for. -/
def Stems (s : Site) (m : MessageEnvelope) : Prop :=
  m.effectId = none ∨ ∃ f a i d, f ∈ s.received ∧ sendCall f = some a ∧ i.pod = f.pod ∧
    f.requestId = some d ∧ m = effectMessage digest i d a

/-- The effect a tool call asks for is where it belongs. -/
def Arrived (s : Site) (f : Frame) : Prop :=
  ∀ a d, sendCall f = some a → f.requestId = some d → ∃ i : SessionIdentity, i.pod = f.pod ∧
    s.holds (.stored (effectMessage digest i d a)) ∧
    s.holds (.listed a.destination (effectMessage digest i d a).id)

/-- A result is that of a call that was received, and comes after its effect. -/
def Recorded (s : Site) (session id : String) (x : ToolRecord) : Prop :=
  ∃ f ∈ s.received, f.session = session ∧ f.toolCallId = some id ∧
    x.argsDigest = argsDigest digest f ∧ Arrived digest s f

structure Grounded (s : Site) : Prop where
  messages : ∀ id m, s.disk.messages id = some m → Stems digest s m
  results : ∀ session id x, s.disk.toolResults session id = some x → Recorded digest s session id x

end

lemma Arrived.mono {f : Frame} (h : ∀ x, s.holds x → t.holds x) (hf : Arrived digest s f) :
    Arrived digest t f := by
  intro a d ha hd
  obtain ⟨i, hi, hstored, hlisted⟩ := hf a d ha hd
  exact ⟨i, hi, h _ hstored, h _ hlisted⟩

lemma Recorded.mono {session id : String} {x : ToolRecord} (h : ∀ x, s.holds x → t.holds x)
    (hx : Recorded digest s session id x) : Recorded digest t session id x := by
  obtain ⟨f, hf, hsession, hid, hargs, harrived⟩ := hx
  exact ⟨f, h (.received f) hf, hsession, hid, hargs, harrived.mono h⟩

lemma Stems.mono {m : MessageEnvelope} (h : ∀ x, s.holds x → t.holds x) (hm : Stems digest s m) :
    Stems digest t m := by
  rcases hm with hnone | ⟨f, a, i, d, hf, hrest⟩
  · exact .inl hnone
  · exact .inr ⟨f, a, i, d, h (.received f) hf, hrest⟩

/-- What a process knows of the messages it writes. -/
lemma stems_of_asked (hg : Knows s g) {m : MessageEnvelope} (h : Asked digest g.known m) :
    Stems digest s m := by
  rcases h with hnone | ⟨f, a, i, d, hf, ha, hpod, hd, hm⟩
  · exact .inl hnone
  · exact .inr ⟨f, a, i, d, hg.known _ hf, ha, hpod.symm, hd, hm⟩

lemma arrived_of_effected (hg : Knows s g) {f : Frame} (h : Effected digest g.known f) :
    Arrived digest s f := by
  intro a d ha hd
  obtain ⟨i, hi, hstored, hlisted⟩ := h a d ha hd
  refine ⟨i, hi, hg.known _ hstored, fun hclean => ?_⟩
  exact hg.known _ (hlisted hclean) hclean

lemma grounded_step (hs : Grounded digest s) (hpre : Allowed digest g o) (hg : Knows s g)
    (h : env.step s o r t) : Grounded digest t := by
  have hkept : ∀ x, s.holds x → t.holds x := fun x => holds_step hpre hg h
  have hmessages : ∀ m, Stems digest s m → Stems digest t m := fun m => Stems.mono hkept
  have hresults : ∀ session id x, Recorded digest s session id x →
      Recorded digest t session id x := fun session id x => Recorded.mono hkept
  cases step_effect h with
  | message m =>
      refine ⟨fun id m' hm' => hmessages m' ?_, fun session id x hx => ?_⟩
      · change Function.update s.disk.messages m.id (some m) id = some m' at hm'
        by_cases hid : id = m.id
        · subst hid
          rw [Function.update_self] at hm'
          obtain rfl := Option.some.inj hm'
          exact stems_of_asked hg hpre.2.2
        · rw [Function.update_of_ne hid] at hm'
          exact hs.messages id m' hm'
      · exact hresults session id x (hs.results session id x hx)
  | result session id x hnone =>
      refine ⟨fun id m hm => hmessages m (hs.messages id m hm), fun session' id' x' hx' => ?_⟩
      refine hresults session' id' x' ?_
      change Store.write s.disk.toolResults session id (some x) session' id' = some x' at hx'
      unfold Store.write at hx'
      by_cases hsession : session' = session
      · subst hsession
        rw [Function.update_self] at hx'
        by_cases hid : id' = id
        · subst hid
          rw [Function.update_self] at hx'
          obtain rfl := Option.some.inj hx'
          obtain ⟨f, hf, hsession, hid, hargs, heff⟩ := hpre
          exact ⟨f, hg.known _ hf, hsession, hid, hargs, arrived_of_effected hg heff⟩
        · rw [Function.update_of_ne hid] at hx'
          exact hs.results _ _ _ hx'
      · rw [Function.update_of_ne hsession] at hx'
        exact hs.results _ _ _ hx'
  | none | state | inbox | processed | terminal | received =>
      exact ⟨fun id m hm => hmessages m (hs.messages id m hm),
        fun session id x hx => hresults session id x (hs.results session id x hx)⟩

abbrev Effecting (digest : String → String) :=
  Threads.Each (fun s => Keyed s ∧ Grounded digest s) Knows Apart

lemma effecting_keeps :
    Threads.Keeps (factory fingerprint digest runs) Exclusive (Allowed digest) (fun _ => True)
      (Effecting digest) where
  start s ns i g p hi hb h := by
    obtain ⟨c, -, rfl, -⟩ := hb
    exact h.set h.all (fun j x _ hj hx => ⟨hx, (apart_begin c.role).symm⟩) (knows_begin c.role)
  call s ns i g o r t hi hpre ht hM h := by
    have hg := h.one i g hi
    refine h.set ⟨keyed_step h.all.1 ht, grounded_step h.all.2 hpre hg ht⟩ ?_
      (knows_note h.all.1 hpre hg ht)
    intro j x hji hj hx
    have hapart := h.two i j g x hji.symm hi hj
    have hnote := apart_note hM hji hj hapart
    exact ⟨knows_other hpre hg ht hx hapart, hnote.symm, hnote⟩
  leave s ns i g hi _ h := h.drop i
  idle s ns t ht := ht.elim

lemma effecting_good (hkeyed : Keyed s) (hgrounded : Grounded digest s)
    {c : Threads.Config Call Call.Ret String Unit Site Doing}
    (h : Threads.Run (factory fingerprint digest runs) Exclusive (.empty s) c) :
    Threads.Good (factory fingerprint digest runs) (fun _ _ _ => True) (Allowed digest)
      (fun _ _ => True) (Effecting digest) c := by
  refine Threads.good _ ?_ safe_begins (fun _ _ _ _ => trivial) effecting_keeps ?_ h
  · intro s ns i g o r t _ _ _ _
    trivial
  · exact .empty ⟨hkeyed, hgrounded⟩

/-- What is so in a run stays so. -/
lemma holds_run (hkeyed : Keyed s) (hgrounded : Grounded digest s)
    {c c' : Threads.Config Call Call.Ret String Unit Site Doing}
    (h : Threads.Run (factory fingerprint digest runs) Exclusive (.empty s) c)
    (hrun : Threads.Run (factory fingerprint digest runs) Exclusive c c') {x : Fact}
    (hx : c.shared.holds x) : c'.shared.holds x := by
  induction hrun with
  | refl => exact hx
  | @tail c' c'' hrun hstep ih =>
      have hgood := effecting_good hkeyed hgrounded (h.trans hrun)
      cases hstep with
      | start | leave => exact ih
      | idle ht => exact ht.elim
      | @call i g o k r t hi hr hM =>
          have hpre := (safe_call_of o k g _).mp (hgood.2 i g _ hi)
          have hg := hgood.1.one i g (by simp [Threads.Config.notes, hi])
          exact holds_step hpre.1 hg hr ih

/-! ### Once for each delivery -/

/-- Effects that say the same for the same delivery are in one file. -/
lemma one_effect (hs : Grounded digest s) (hkeyed : Keyed s) {id id' : String}
    {m m' : MessageEnvelope} (hm : s.disk.messages id = some m) (hm' : s.disk.messages id' = some m')
    (he : m.effectId ≠ none) (he' : m'.effectId ≠ none) (hsource : m.source = m'.source)
    (hreply : m.replyTo = m'.replyTo) (hto : m.destination = m'.destination)
    (hkind : m.kind = m'.kind) (hpayload : m.payload = m'.payload) : id = id' := by
  obtain ⟨f, a, i, d, -, -, -, -, rfl⟩ := (hs.messages id m hm).resolve_left he
  obtain ⟨f', a', i', d', -, -, -, -, rfl⟩ := (hs.messages id' m' hm').resolve_left he'
  obtain rfl : d = d' := Option.some.inj hreply
  have hsame : effectMessage digest i d a = effectMessage digest i' d a' :=
    effectMessage_congr hsource hto hkind hpayload
  rw [← hkeyed id _ hm, ← hkeyed id' _ hm', hsame]

/-- No call for another effect that was received in the session has the same id and digest. -/
def Unmistaken (digest : String → String) (received : List Frame) (f : Frame) : Prop :=
  ∀ f' ∈ received, f'.session = f.session → f'.toolCallId = f.toolCallId →
    argsDigest digest f' = argsDigest digest f →
    sendCall f' = sendCall f ∧ f'.requestId = f.requestId ∧ f'.pod = f.pod

instance (digest : String → String) (received : List Frame) (f : Frame) :
    Decidable (Unmistaken digest received f) :=
  inferInstanceAs (Decidable (∀ f' ∈ received, _))

/-- A result that is sent comes after the effect. -/
lemma arrived_of_sends (hs : Grounded digest s) (hg : Knows s g) {frame f : Frame}
    (hpre : AllowedWorker digest g (.send frame)) (hkind : frame.kind = .toolResult)
    (hf : g.asked = some f) (hid : Unmistaken digest s.received f) : Arrived digest s f := by
  obtain ⟨call, id, x, hcall, -, htool, -, -, hresult, hargs⟩ := hpre hkind
  obtain rfl : call = f := Option.some.inj (hcall.symm.trans hf)
  obtain ⟨f', hf', hsession, htool', hargs', harrived⟩ :=
    hs.results _ _ _ (hg.known _ hresult)
  obtain ⟨hsend, hrequest, hpod⟩ :=
    hid f' hf' hsession (htool'.trans htool.symm) (hargs'.symm.trans hargs)
  intro a d ha hd
  obtain ⟨i, hi, hrest⟩ := harrived a d (hsend.trans ha) (hrequest.trans hd)
  exact ⟨i, hi.trans hpod, hrest⟩

/-- **Effects are applied once for each delivery.** In every run of the commands and pod
processes, each stopped anywhere, with any worker: a message with an effect id is one that a
worker asked for in the delivery it answers; two of them never say the same to the same pod from
the same pod in answer to the same delivery; and what a worker is about to be told is sent is in
its inbox by then and for good, unless the id of the call has another's result on record. -/
theorem effects_applied_once {s : Site} (hkeyed : Keyed s) (hgrounded : Grounded digest s)
    (hhex : ∀ x, clean ("effect-" ++ digest x) = true)
    {c : Threads.Config Call Call.Ret String Unit Site Doing}
    (h : Threads.Run (factory fingerprint digest runs) Exclusive (.empty s) c) :
    (∀ id m, c.shared.disk.messages id = some m → m.effectId ≠ none →
      ∃ f ∈ c.shared.received, EffectOf f m) ∧
    (∀ id id' m m', c.shared.disk.messages id = some m → c.shared.disk.messages id' = some m' →
      m.effectId ≠ none → m'.effectId ≠ none → m.source = m'.source → m.replyTo = m'.replyTo →
      m.destination = m'.destination → m.kind = m'.kind → m.payload = m'.payload → id = id') ∧
    ∀ i g frame k f, c.threads i = some (g, .call (.inr (.inl (.send frame))) k) →
      frame.kind = .toolResult → g.asked = some f → sendCall f ≠ none → f.requestId ≠ none →
      Unmistaken digest c.shared.received f →
      ∃ m, EffectOf f m ∧ ∀ c', Threads.Run (factory fingerprint digest runs) Exclusive c c' →
        c'.shared.disk.messages m.id = some m ∧
        m.id ∈ inboxIds (c'.shared.disk.inbox m.destination) := by
  have hgood := effecting_good hkeyed hgrounded h
  obtain ⟨hkeyed', hgrounded'⟩ := hgood.1.all
  refine ⟨fun id m hm he => ?_, fun id id' m m' => one_effect hgrounded' hkeyed', ?_⟩
  · obtain ⟨f, a, i, d, hf, ha, hi, hd, rfl⟩ := (hgrounded'.messages id m hm).resolve_left he
    exact ⟨f, hf, effectOf_effectMessage ha hi hd⟩
  · intro i g frame k f hi hkind hf hsend hrequest hid
    obtain ⟨a, ha⟩ := Option.ne_none_iff_exists'.mp hsend
    obtain ⟨d, hd⟩ := Option.ne_none_iff_exists'.mp hrequest
    have hpre := (safe_call_of _ k g _).mp (hgood.2 i g _ hi)
    have hg := hgood.1.one i g (by simp [Threads.Config.notes, hi])
    obtain ⟨j, hj, hstored, hlisted⟩ := arrived_of_sends hgrounded' hg hpre.1 hkind hf hid a d ha hd
    refine ⟨effectMessage digest j d a, effectOf_effectMessage ha hj hd, fun c' hrun => ⟨?_, ?_⟩⟩
    · exact holds_run hkeyed hgrounded h hrun hstored
    · exact holds_run hkeyed hgrounded h hrun hlisted (hhex _)

/-! ### A worker that sends -/

/-- A pod that may write to itself. -/
def sender : Pod.PodProcessConfig :=
  { Pod.plainConfig with
    pod := { Pod.plainConfig.pod with
      capabilities := ["pod.send_message"]
      destinations := ["p"]
      messageKinds := ["message"] } }

def sendHi : Frame :=
  workerFrame .toolCall 2 (.obj [("arguments", .obj [("kind", .str "message"),
    ("payload", .str "hi"), ("to", .str "p")]), ("name", .str "pod.send_message")]) (some "m")
    (some "t")

/-- The text the effect of `sendHi` is known by. -/
def hiKey : String :=
  String.ofList (Wire.text (Pod.effectKey sender.identity "m"
    { destination := "p", kind := "message", payload := "hi" }))

/-- The digests of the two texts that are hashed for `sendHi`. -/
def sha256 (text : String) : String :=
  if text = hiKey then "0e2eab28e6399f84c53f116c6faaab8991de701fbe773eb54e0aa9ae17c9ea7a"
  else "8575ffbfd4a477b1f91d3cc4c9e9d1fd9e3f62ed76acd8ffe28cf63b11d01cd9"

/-- The worker sends, and is gone. The next session's answers at once. -/
def forgets : ℕ → Option Pod.Line
  | 0 => some (.frame hello 100)
  | 1 => some (.frame sendHi 100)
  | 2 => some (.frame { hello with factoryGen := 2, session := "s2" } 100)
  | 3 => some (.frame { answered 2 with factoryGen := 2, session := "s2" } 100)
  | _ => none

lemma waiting_grounded (digest : String → String) : Grounded digest waiting where
  messages id m hm := by
    left
    change (if id = "m" then some (Store.letter "m") else none) = some m at hm
    split_ifs at hm
    rw [← Option.some.inj hm]
    rfl
  results _ _ _ hx := absurd hx (by simp [waiting])

lemma clean_sha256 (x : String) : clean ("effect-" ++ sha256 x) = true := by
  unfold sha256
  split_ifs
  · decide +kernel
  · decide +kernel

/-- What a process is about to tell its worker, and what the worker asked. -/
def telling (c : Threads.Config Call Call.Ret String Unit Site Doing) (i : ℕ) :
    Option (Frame × Frame) :=
  match c.threads i with
  | some (g, .call (.inr (.inl (.send x))) _) => g.asked.map (x, ·)
  | _ => none

lemma telling_spec {c : Threads.Config Call Call.Ret String Unit Site Doing} {i : ℕ}
    {x f : Frame} (h : telling c i = some (x, f)) :
    ∃ g k, c.threads i = some (g, .call (.inr (.inl (.send x))) k) ∧ g.asked = some f := by
  unfold telling at h
  split at h
  · rename_i g y k hi
    obtain ⟨f', hf', he⟩ := Option.map_eq_some_iff.mp h
    obtain ⟨rfl, rfl⟩ := Prod.mk.inj he
    exact ⟨g, k, hi, hf'⟩
  · cases h

/-- A worker is about to be told that its message is sent, and there it is. -/
theorem effects_applied_once_told :
    ∃ c f m, Threads.Run (factory (fun _ => .ok "l") sha256 fun _ => True) Exclusive
        (.empty waiting) c ∧
      (telling c 0).map Prod.snd = some f ∧ EffectOf f m ∧
      ∀ c', Threads.Run (factory (fun _ => .ok "l") sha256 fun _ => True) Exclusive c c' →
        c'.shared.disk.messages m.id = some m ∧
        m.id ∈ inboxIds (c'.shared.disk.inbox m.destination) := by
  have hrun : (demo (fun _ => .ok "l") sha256 forgets (exclusive 1) waiting [.pod sender 5]
      (turns 42 0)).any (fun c => (telling c 0).any fun (x, f) =>
        decide (x.kind = .toolResult) && (sendCall f).isSome && f.requestId.isSome &&
        decide (Unmistaken sha256 c.shared.received f)) = true := by decide +kernel
  obtain ⟨c, hc, hx⟩ := (Option.any_eq_true _ _).mp hrun
  obtain ⟨⟨x, f⟩, hf, hall⟩ := (Option.any_eq_true _ _).mp hx
  simp only [Bool.and_eq_true, decide_eq_true_eq, Option.isSome_iff_ne_none] at hall
  obtain ⟨⟨⟨hkind, hsend⟩, hrequest⟩, hid⟩ := hall
  have hreach : Threads.Run (factory (fun _ => .ok "l") sha256 fun _ => True) Exclusive
      (.empty waiting) c := by
    refine run_demo (fun _ _ => trivial) ?_ hc
    exact fun _ _ _ hn hok => exclusive_of hn hok
  obtain ⟨g, k, hi, hasked⟩ := telling_spec hf
  obtain ⟨-, -, hsent⟩ :=
    effects_applied_once waiting_keyed (waiting_grounded sha256) clean_sha256 hreach
  obtain ⟨m, hm, hkept⟩ := hsent 0 g x k f hi hkind hasked hsend hrequest hid
  exact ⟨c, f, m, hreach, by rw [hf]; rfl, hm, hkept⟩

/-- The lock excludes, and no worker is told the result of a call. -/
def Untold : Threads.Condition Call Call.Ret Site Doing := fun s ns i o r =>
  Exclusive s ns i o r ∧ ∀ f, o = .inr (.inl (.send f)) → f.kind ≠ .toolResult

def tells : Call → Bool
  | .inr (.inl (.send f)) => f.kind = .toolResult
  | _ => false

def untold (n : ℕ) (c : Threads.Config Call Call.Ret String Unit Site Doing) (i : ℕ)
    (o : Call) : Bool := exclusive n c i o && !tells o

lemma untold_of {n : ℕ} {c : Threads.Config Call Call.Ret String Unit Site Doing} {i : ℕ}
    {o : Call} {r : o.Ret} (hn : ∀ j, n ≤ j → c.threads j = none) (h : untold n c i o = true) :
    Untold c.shared c.notes i o r := by
  unfold untold at h
  rw [Bool.and_eq_true] at h
  refine ⟨exclusive_of hn h.1, ?_⟩
  rintro f rfl
  simpa [tells] using h.2

/-- A worker sends a message, and its pod process is stopped before the worker is told. The
process of the next apply completes the delivery with a worker that does not send. The message
stays, though no worker was ever told the result of a call. -/
theorem effect_nobody_was_told_of :
    ∃ c m, Threads.Run (factory (fun _ => .ok "l") sha256 fun _ => True) Untold
        (.empty waiting) c ∧
      c.shared.disk.processed "p" "m" = true ∧ c.shared.disk.messages m.id = some m ∧
      m.effectId ≠ none ∧ m.replyTo = some "m" := by
  have hrun : (demo (fun _ => .ok "l") sha256 forgets (untold 3) waiting
      [.pod sender 5, .apply onePodManifest,
        .pod { sender with factoryGen := 2, session := "s2" } 5]
      (turns 34 0 ++ turns 14 1)).any (fun c => (c.threads 1).isSome &&
        (resume forgets (untold 3) (turns 40 2) (c.set 1 none)).any fun c =>
          c.shared.disk.processed "p" "m" &&
          (c.shared.disk.messages ("effect-" ++ sha256 hiKey)).any fun m =>
            decide (m.id = "effect-" ++ sha256 hiKey) && m.effectId.isSome &&
              decide (m.replyTo = some "m")) = true := by decide +kernel
  obtain ⟨c, hc, hx⟩ := (Option.any_eq_true _ _).mp hrun
  rw [Bool.and_eq_true] at hx
  obtain ⟨⟨g, p⟩, hi⟩ := Option.isSome_iff_exists.mp hx.1
  obtain ⟨c', hc', hx'⟩ := (Option.any_eq_true _ _).mp hx.2
  rw [Bool.and_eq_true] at hx'
  obtain ⟨m, hm, hall⟩ := (Option.any_eq_true _ _).mp hx'.2
  simp only [Bool.and_eq_true, decide_eq_true_eq, Option.isSome_iff_ne_none] at hall
  obtain ⟨⟨hid, heffect⟩, hreply⟩ := hall
  refine ⟨c', m, ?_, hx'.1, hid ▸ hm, heffect, hreply⟩
  have hfirst : Threads.Run (factory (fun _ => .ok "l") sha256 fun _ => True) Untold
      (.empty waiting) c := by
    refine run_demo (fun _ _ => trivial) ?_ hc
    exact fun _ _ _ hn hok => untold_of hn hok
  refine (hfirst.tail (.leave hi trivial)).trans (run_resume (n := 3) (fun j hj => ?_) ?_ hc')
  · have hne : j ≠ 1 := by omega
    simpa [Threads.Config.set, hne] using threads_demo hc j hj
  · exact fun _ _ _ hn hok => untold_of hn hok

end Bimo.Runs
