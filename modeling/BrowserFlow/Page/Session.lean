import BrowserFlow.Page.Basic

/-!
Browser sessions. A session is a browser that has been launched and a page that
has been opened in it; a browser without a page is closed again. A browser is
what fails of it. Main statement: a browser that was launched and has no session
was closed once, and one that has a session was not closed.
-/

set_option autoImplicit false
set_option relaxedAutoImplicit false

namespace BrowserFlow

/-- What a session is opened with. -/
structure SessionPlan where
  /-- Whether the browser shows no window. -/
  headless : Bool
  /-- How long going to an address may take, in seconds. -/
  navigationTimeout : Number
  /-- The path of the directory for pictures. -/
  outputDir : Text

/-- What fails of a browser, and with what. -/
structure Browser where
  /-- Launching it. -/
  launch : Option Datum
  /-- Opening a page. -/
  newPage : Option Datum
  /-- Closing it. -/
  close : Option Datum

/-- What happens to a browser. -/
inductive SessionEvent where
  /-- It is launched. -/
  | launching (options : SessionPlan)
  /-- A page is opened in it. -/
  | openingPage
  /-- It is closed. -/
  | closing

namespace SessionEvent

/-- Whether a browser is closed. -/
def isClosing : SessionEvent → Bool
  | .closing => true
  | _ => false

end SessionEvent

namespace SessionPlan

/-- How the page of a session is used by a program in a directory. -/
def viewing (options : SessionPlan) (home : FilePlace) : Viewing :=
  ⟨options.navigationTimeout, FilePath.resolve home options.outputDir⟩

end SessionPlan

namespace Browser

/-- A browser of which nothing fails. -/
def sound : Browser := ⟨none, none, none⟩

/-- What comes of opening a session, and what happens to the browser. A failure to close goes before
the failure for which the browser is closed. -/
def startSession (browser : Browser) (options : SessionPlan) :
    Except Datum Unit × List SessionEvent :=
  match browser.launch, browser.newPage with
  | some what, _ => (.error what, [.launching options])
  | none, none => (.ok (), [.launching options, .openingPage])
  | none, some what =>
    (.error (browser.close.getD what), [.launching options, .openingPage, .closing])

/-- What comes of something done in a session when the browser is closed behind it. -/
def closeAfter {α : Type} (browser : Browser) (done : Except Datum α) : Except Datum α :=
  match browser.close with
  | some what => .error what
  | none => done

/-- A browser that was launched is closed at once if there is no session, and else left open. -/
theorem closings_startSession (browser : Browser) (options : SessionPlan)
    (h : browser.launch = none) :
    (browser.startSession options).2.countP SessionEvent.isClosing
      = if (browser.startSession options).1.isOk then 0 else 1 := by
  unfold startSession
  rw [h]
  cases browser.newPage <;> rfl

end Browser

end BrowserFlow
