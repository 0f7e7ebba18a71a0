import UiSync.Proofs.Session.Chronicle
import UiSync.Proofs.Session.Exchange
import UiSync.Proofs.Sync.Reception

/-!
# Recovery from lost responses

A client reports the last response it applied.  When that is not the last one of the session, the
next round trip builds its replica anew, whatever it asks for and whatever became of the session
before (`recovery`), as long as the number of the response still counts as ahead of the one the
client reported.

The request may bring components that were never sent, but no others; its setups may commit no
fields and write no response; and the messages have to arrive as they are.  Otherwise the client may
be left with fields that are not those of the server (`not_recovery`).
-/

namespace UiSync

open SequenceNumber

variable {μ η σ : Type}

/-- A client that applied the `n`-th response of a session and missed at least the one after it, but
not half a turn of the circle, has everything there is after one round trip. -/
theorem recovery {b : Behaviour μ η σ} {root : Component μ} {config : Config} {s s' : Session μ η}
    {c : Client} {n k : Nat} {report : InvocationReport} {response : Response}
    (h : Session.Evolves σ (Session.ofRoot root config) s) (hb : b.Regular false)
    (hs : s.lastResponse = some (ofNat k)) (hc : c.lastResponse = some (ofNat n))
    (hbehind : n < k) (hnear : k < n + 2 ^ 15 - 1)
    (hx : Server.exchange b c.takeRequest.1 s = (s', report, .ok response)) :
    response.message.resynchronize = true ∧
      ∃ c', c.takeRequest.2.apply response.message = (c', .ok .applied) ∧
        c'.lastResponse = s'.lastResponse ∧ c'.replica.Mirrors FieldBag.fields s'.tree := by
  have hmissed : s.missed c.takeRequest.1.lastResponse = true := by
    show s.missed c.lastResponse = true
    rw [hc, Session.missed, hs]
    refine bne_iff_ne.2 fun he => ?_
    exact ofNat_ne (m := k) (n := n) (by omega) (by omega) (Option.some.inj he).symm
  obtain ⟨hflag, hfollow⟩ := exchange_missed h.tables.wellFormed hb hmissed hx
  obtain ⟨r, hr, hm⟩ := hfollow c.takeRequest.2.replica
  obtain ⟨-, hrespond⟩ := exchange_ok hx
  obtain ⟨d, -, hs', hmessage⟩ := Session.respond_ok hrespond
  have hseq : response.message.sequence = ofNat (k + 1) := by
    rw [hmessage]
    show (s.receive b c.takeRequest.1).1.nextSequence = _
    rw [Session.nextSequence, (Session.acts_receive hb s _).kept.lastResponse, hs]
    exact next_ofNat k
  have hnewer : response.message.sequence.isNewerThan (ofNat n) = true := by
    rw [hseq]
    exact isNewerThan_ofNat (by omega) (by omega)
  have hjudge := Client.judge_resynchronize (c := c.takeRequest.2) hc hnewer hflag
  refine ⟨hflag, _, Client.apply_followed hjudge hr, ?_, hm⟩
  show some response.message.sequence = s'.lastResponse
  rw [hs', hmessage]
  rfl

/-! ### A page that is behind -/

/-- the double next to 1e-24, which is written as 1.0000000000000001e-24 and read as 1e-24 -/
def gauge : Json.Double := ⟨false, 4247835366853742248, by decide⟩

def gaugePage : Component Unit :=
  ⟨"Page", .ofFields ((∅ : Fields).insert "gauge" (.float gauge)), ()⟩

def gaugeView : Session Unit Unit :=
  { (Session.ofRoot gaugePage {} : Session Unit Unit) with
    registry := (∅ : Registry Unit).register ⟨1⟩ "View" () }

def gauged : Session Unit Unit :=
  match gaugeView.attach ⟨1⟩ ⟨"Note", .empty, ()⟩ with
  | .ok (_, s) => s
  | .error _ => gaugeView

/-- the client that applied its first response, and calls the view -/
def lagging : Client := ((Client.new.apply (nextMessage gauged)).1.invoke ⟨1⟩ "View" "call" []).2

/-- another response was written meanwhile -/
def gaugedTwice : Session Unit Unit := flushed (flushed gauged)

def gaugeLog : List (Commit Unit) :=
  [⟨nextMessage gauged, (flushed gauged).tree⟩, ⟨nextMessage (flushed gauged), gaugedTwice.tree⟩]

theorem history_gaugeLog : History Unit gaugeLog gaugedTwice := by
  have hview : (Session.ofRoot gaugePage {} : Session Unit Unit).register ⟨1⟩ "View" () =
      .ok gaugeView := rfl
  have hnote : gaugeView.attach ⟨1⟩ ⟨"Note", .empty, ()⟩ = .ok (⟨2⟩, gauged) := rfl
  have hstart : History Unit [] (Session.ofRoot gaugePage {} : Session Unit Unit) :=
    .start {} (FieldBag.unsent_ofFields _)
  have hgauged := (hstart.act (.register hview)).act (.attach (FieldBag.unsent_ofFields ∅) hnote)
  exact (hgauged.flush ⟨_, rfl, rfl⟩).flush ⟨_, rfl, rfl⟩

theorem reception_gaugeLog : Reception gaugeLog lagging (some 0) := by
  have hsent : gaugeLog[0]? = some ⟨nextMessage gauged, (flushed gauged).tree⟩ := rfl
  have hfirst : Reception gaugeLog (Client.new.apply (nextMessage gauged)).1 (some 0) :=
    .deliver .start hsent rfl
  exact hfirst.invoke ⟨1⟩ "View" "call" []

/-- the note goes, and another one comes with a text -/
def replacing : Behaviour Unit Unit Unit where
  hook _ c _ := .idle c.model
  handle _ c _ := (⟨c.model, [.set "open" (.bool true)], [], [⟨1⟩],
    [.detach ⟨2⟩, .attach ⟨1⟩ ⟨"Note", .empty, ()⟩ (some ())]⟩, .ok ())
  setup _ s id := (s.update id (Component.revise [.set "text" (.string "Hi")] ()), .ok ())

theorem regular_replacing : replacing.Regular false := by
  refine ⟨fun handler c call q hq => ?_, fun setup s id => .single (.edit id _ ())⟩
  change q ∈ [TreeRequest.detach ⟨2⟩, .attach ⟨1⟩ ⟨"Note", .empty, ()⟩ (some ())] at hq
  simp only [List.mem_cons, List.not_mem_nil, or_false] at hq
  rcases hq with rfl | rfl
  · trivial
  · exact FieldBag.unsent_ofFields ∅

theorem recovery_page : ∃ (s' : Session Unit Unit) (c' : Client) (report : InvocationReport)
    (response : Response),
    History Unit gaugeLog gaugedTwice ∧ Reception gaugeLog lagging (some 0) ∧
      Server.exchange replacing lagging.takeRequest.1 gaugedTwice = (s', report, .ok response) ∧
      report.applied = 1 ∧ s'.tree.preOrder = [⟨1⟩, ⟨3⟩] ∧
      s'.tree.field? ⟨3⟩ "text" = some (.string "Hi") ∧
      response.message.resynchronize = true ∧
      lagging.takeRequest.2.apply response.message = (c', .ok .applied) ∧
      c'.replica.Mirrors FieldBag.fields s'.tree := by
  obtain ⟨root, config, hev⟩ := history_gaugeLog.evolves
  obtain ⟨s', report, response, hreport, hgone, htext, hx⟩ : ∃ s' report response,
      report.applied = 1 ∧ s'.tree.preOrder = [⟨1⟩, ⟨3⟩] ∧
        s'.tree.field? ⟨3⟩ "text" = some (.string "Hi") ∧
        Server.exchange replacing lagging.takeRequest.1 gaugedTwice = (s', report, .ok response) :=
    ⟨_, _, _, rfl, rfl, rfl, rfl⟩
  obtain ⟨hflag, c', happly, -, hm⟩ := recovery (n := 0) (k := 1) hev regular_replacing rfl rfl
    (by omega) (by omega) hx
  exact ⟨s', c', report, response, history_gaugeLog, reception_gaugeLog, hx, hreport, hgone, htext,
    hflag, happly, hm⟩

/-! ### Round trips that leave something out -/

def textNote : Component Unit :=
  ⟨"Note", .ofFields ((∅ : Fields).insert "text" (.string "Hi")), ()⟩

/-- the note as it is after a response of another session -/
def sentNote : Component Unit := { textNote with fields := textNote.fields.commit }

def adopting : Behaviour Unit Unit Unit where
  hook _ c _ := .idle c.model
  handle _ c _ := (⟨c.model, [], [], [], [.attach ⟨1⟩ sentNote none]⟩, .ok ())
  setup _ s _ := (s, .ok ())

/-- the page gets a new note whose setup commits the fields, as if they had gone out -/
def withholding : Behaviour Unit Unit Unit where
  hook _ c _ := .idle c.model
  handle _ c _ := (⟨c.model, [], [], [], [.attach ⟨1⟩ textNote (some ())]⟩, .ok ())
  setup _ s id := (s.update id fun c => { c with fields := c.fields.commit }, .ok ())

/-- the page gets a note whose setup writes a response that nobody gets -/
def preempting : Behaviour Unit Unit Unit where
  hook _ c _ := .idle c.model
  handle _ c _ := (⟨c.model, [], [], [], [.attach ⟨1⟩ ⟨"Note", .empty, ()⟩ (some ())]⟩, .ok ())
  setup _ s _ := ((s.respond (.idle : Behaviour Unit Unit Unit)).1, .ok ())

def Client.took : Except ClientError ApplyOutcome → Bool
  | .ok .applied => true
  | _ => false

theorem Client.eq_of_took {x : Client × Except ClientError ApplyOutcome}
    (h : Client.took x.2 = true) : x = (x.1, .ok .applied) := by
  obtain ⟨c', outcome⟩ := x
  cases outcome with
  | error e => cases h
  | ok outcome =>
    cases outcome with
    | applied => rfl
    | stale => cases h
    | outOfSync => cases h

def gaugeAnswer : Response :=
  match (Server.exchange (.idle : Behaviour Unit Unit Unit) lagging.takeRequest.1
      gaugedTwice).2.2 with
  | .ok response => response
  | .error _ => ⟨nextMessage gauged, []⟩

/-- A round trip falls short when the request brings a component whose fields count as sent, because
they went out before or because a setup committed them; when a setup writes a response, as that one
begins anew in place of the answer; and when the payload holds a double that is not read as it was
written. -/
theorem not_recovery :
    History Unit gaugeLog gaugedTwice ∧ Reception gaugeLog lagging (some 0) ∧
    (∀ b ∈ [adopting, withholding], ∃ s' report response c',
      Server.exchange b lagging.takeRequest.1 gaugedTwice = (s', report, .ok response) ∧
      lagging.takeRequest.2.apply response.message = (c', .ok .applied) ∧
      ¬ c'.replica.Mirrors FieldBag.fields s'.tree) ∧
    (∃ s' report response,
      Server.exchange preempting lagging.takeRequest.1 gaugedTwice = (s', report, .ok response) ∧
      response.message.resynchronize = false) ∧
    (∃ s' report response c',
      Server.exchange (.idle : Behaviour Unit Unit Unit) lagging.takeRequest.1 gaugedTwice =
        (s', report, .ok response) ∧
      lagging.takeRequest.2.receive response.payload = (c', .ok .applied) ∧
      ¬ c'.replica.Mirrors FieldBag.fields s'.tree) := by
  refine ⟨history_gaugeLog, reception_gaugeLog, fun b hb => ?_, ⟨_, _, _, rfl, rfl⟩, ?_⟩
  · simp only [List.mem_cons, List.not_mem_nil, or_false] at hb
    rcases hb with rfl | rfl
    · refine ⟨_, _, _, _, rfl, rfl, fun hm => ?_⟩
      have hsame := hm.field? ⟨3⟩ "text"
      cases hsame
    · refine ⟨_, _, _, _, rfl, rfl, fun hm => ?_⟩
      have hsame := hm.field? ⟨3⟩ "text"
      cases hsame
  · refine ⟨_, _, gaugeAnswer, (lagging.takeRequest.2.receive gaugeAnswer.payload).1, rfl, ?_,
      fun hm => ?_⟩
    · exact Client.eq_of_took (by decide +kernel)
    · have hsame := hm.field? ⟨1⟩ "gauge"
      revert hsame
      decide +kernel

end UiSync
