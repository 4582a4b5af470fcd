import RApache.Cookies
import RApache.EnDecode

/-!
# Calls outside of requests

The functions that `RegisterCallSymbols` registers with R and the console callbacks can also be
called while `MR_Request.r` is `NULL`, for example by code that is evaluated on startup.
-/

namespace RApache

/-- How a function that R calls ends. -/
inductive EntryEnd where
  | returned (value : RValue)
  | failed (failure : RFailure)
  /-- It still reads. -/
  | unfinished

/-- The functions of the module that R calls, with arguments of their types.  A character argument
is `none` if it is an object of another type. -/
inductive EntryPoint where
  | setHeader (header value : RArgument)
  | setStatus (status : Int)
  | setContentType (stype : Option Bytes)
  | setCookie (args : CookieArgs)
  | urlEnDecode (str : Option (List Bytes)) (enc : Bool)
  | rApacheInfo
  | parseGet
  | parsePost
  | parseFiles
  | parseCookies
  | getServer
  | sendBin (object : RVector) (ssize : Int32) (sswap : Option Bool)
  | receiveBin (llen : Int32)
  | internals (str : Option Bytes)
  /-- `ptr_R_WriteConsoleEx` is `WriteConsoleStderr` until R has started. -/
  | showMessage (text : Bytes) (writer : Option ConsoleWriter)
  | writeConsoleEx (buf : Bytes) (errorFlag : Bool)
  | writeConsoleErrorOnly (buf : Bytes)
  | writeConsoleStderr (buf : Bytes)
  | readConsole (size : Int32)

/-- What the functions need of their surroundings: how often loops are followed, the locale, what
new memory holds, dates, the platform, what `RApacheInfo` does during a request, and whether the
variable `buf` of `RApache_receiveBin` happens not to be `NULL` before it is set. -/
structure EntryWorld where
  fuel : Nat
  locale : UInt8 → Bool
  old : Nat → UInt8
  dates : DateWorld
  platform : Platform
  info : Globals → EntryEnd × Globals
  uninitialised : Bool

namespace EntryEnd

/-- The end of a call of R code. -/
def ofCall : CallEnd → EntryEnd
  | .returned value => returned value
  | .unfinished => unfinished
  | .ended => failed .ended

def ofDotCall : DotCallEnd → EntryEnd
  | .returned value => returned value
  | .failed failure => failed failure

def ofSendBin : SendBinEnd → EntryEnd
  | .returned _ _ => returned .null
  | .error _ _ => failed .error
  | .ended => failed .ended

end EntryEnd

namespace EntryPoint

/-- A call that only concerns the globals of the current request. -/
def onSession (call : Session → CallEnd × Session) (g : Globals) : EntryEnd × Globals :=
  let (callEnd, session) := call g.session
  (.ofCall callEnd, { g with session })

/-- A function is called. -/
def run (w : EntryWorld) : EntryPoint → Globals → EntryEnd × Globals
  | setHeader header value, g =>
      let (callEnd, g) := RApache.setHeader header value g
      (.ofDotCall callEnd, g)
  | setStatus status, g => onSession (Session.setStatus status) g
  | setContentType stype, g => onSession (Session.setContentType stype) g
  | setCookie args, g =>
      let (callEnd, g) := RApache.setCookie w.dates args g
      (.ofDotCall callEnd, g)
  | urlEnDecode none _, g => (.returned .null, g)
  | urlEnDecode (some str) enc, g =>
      match RApache.urlEnDecode w.locale w.old enc str with
      | some strings => (.returned (.character strings), g)
      | none => (.failed .error, g)
  | rApacheInfo, g => if g.session.request.r.isNone then (.returned .null, g) else w.info g
  | parseGet, g => onSession Session.parseGet g
  | parsePost, g => onSession (Session.parsePost w.fuel true) g
  | parseFiles, g => onSession (Session.parsePost w.fuel false) g
  | parseCookies, g => onSession Session.parseCookies g
  | getServer, g => onSession Session.getServer g
  | sendBin object ssize sswap, g =>
      let (sendEnd, session) := rApacheSendBin int32 w.platform object ssize sswap g.session
      (.ofSendBin sendEnd, { g with session })
  | receiveBin llen, g =>
      -- `R_Free` of a pointer that was never set
      if llen = 0 ∧ w.uninitialised then (.failed .ended, g)
      else onSession (Session.receiveBin w.fuel llen) g
  | internals none, g => (.returned .null, g)
  | internals (some str), g => (.returned (g.session.internals str), g)
  | showMessage _ none, g => (.returned .null, g)
  | showMessage text (some .writeConsoleEx), g => onSession (Session.writeConsoleEx text true) g
  | showMessage text (some .writeConsoleErrorOnly), g =>
      onSession (Session.writeConsoleErrorOnly text) g
  | writeConsoleEx buf errorFlag, g => onSession (Session.writeConsoleEx buf errorFlag) g
  | writeConsoleErrorOnly buf, g => onSession (Session.writeConsoleErrorOnly buf) g
  | writeConsoleStderr _, g => (.returned .null, g)
  | readConsole size, g => onSession (Session.readConsole size) g

/-- The name of a header is a character vector with an element. -/
def WellTyped : EntryPoint → Prop
  | setHeader header _ => header.HasText
  | _ => True

/-- The call comes back with a value, and neither `MR_Request` nor a brigade is changed. -/
def ReturnsUnchanged (w : EntryWorld) (entry : EntryPoint) (g : Globals) : Prop :=
  ∃ value g', entry.run w g = (.returned value, g') ∧
    g'.session.request = g.session.request ∧ g'.session.bbIn = g.session.bbIn ∧
    g'.session.bbOut = g.session.bbOut ∧ g'.session.bbErr = g.session.bbErr

/-- No console is read, nothing is received, and each string can be encoded or decoded. -/
def Harmless (w : EntryWorld) : EntryPoint → Prop
  | readConsole _ => False
  | receiveBin llen => llen = 0 ∧ w.uninitialised = false
  | urlEnDecode (some str) enc =>
      ∀ text ∈ str, text ≠ [] ∧ (enc = false → (apreqDecode text).value = 0)
  | _ => True

variable {w : EntryWorld} {g : Globals}

theorem returnsUnchanged_of {entry : EntryPoint} {value : RValue}
    (ran : entry.run w g = (.returned value, g)) : entry.ReturnsUnchanged w g :=
  ⟨value, g, ran, rfl, rfl, rfl, rfl⟩

theorem not_returnsUnchanged_of {entry : EntryPoint} {g' : Globals} {failure : RFailure}
    (ran : entry.run w g = (.failed failure, g')) : ¬ entry.ReturnsUnchanged w g := by
  rintro ⟨value, after, returned, -⟩
  rw [ran] at returned
  cases returned

theorem encode_isSome_iff (locale : UInt8 → Bool) (old : Nat → UInt8) (text : Bytes) :
    (encode locale old text).isSome ↔ text ≠ [] := by
  have length : (apreqEncode locale text).1 = (encoded locale text).length :=
    (apreqEncodeLoop_holds locale text).d
  have empty : (apreqEncode locale text).1 = 0 ↔ text = [] := by
    rw [length, List.length_eq_zero_iff]
    refine ⟨encoded_eq_nil locale, fun isNil => ?_⟩
    rw [isNil]
    rfl
  unfold encode
  by_cases isNil : text = []
  · subst isNil
    simp [empty.mpr rfl]
  · simp [empty, isNil]

theorem decode_isSome_iff (old : Nat → UInt8) (text : Bytes) :
    (decode old text).isSome ↔ text ≠ [] ∧ (apreqDecode text).value = 0 := by
  unfold decode
  by_cases isNil : text = []
  · simp [isNil]
  · by_cases decodes : (apreqDecode text).value = 0
    · simp [isNil, decodes]
    · simp [isNil, decodes]

/-- All strings are coded if each of them is. -/
theorem urlEnDecode_isSome_iff (locale : UInt8 → Bool) (old : Nat → UInt8) (enc : Bool)
    (str : List Bytes) :
    (RApache.urlEnDecode locale old enc str).isSome ↔
      ∀ text ∈ str, text ≠ [] ∧ (enc = false → (apreqDecode text).value = 0) := by
  have one (text : Bytes) : ((if enc then encode locale old else decode old) text).isSome ↔
      text ≠ [] ∧ (enc = false → (apreqDecode text).value = 0) := by
    cases enc with
    | true => simpa using encode_isSome_iff locale old text
    | false => simpa using decode_isSome_iff old text
  simp only [RApache.urlEnDecode]
  induction str with
  | nil => simp
  | cons text str ih =>
      rw [List.forall_mem_cons, List.mapM_cons]
      refine Iff.trans ?_ (and_congr (one text) ih)
      cases (if enc then encode locale old else decode old) text with
      | none => simp
      | some code =>
          cases List.mapM (if enc then encode locale old else decode old) str with
          | none => simp
          | some codes => simp

/-- Without a request there is nothing to read from. -/
theorem readRequestBody_outside (size : Int32) (outside : g.session.request.r = none) :
    g.session.readRequestBody size = none := by
  simp only [Session.readRequestBody, outside]

/-- `receiveBin` reads unless its length is zero. -/
theorem receiveBin_iff (llen : Int32) (outside : g.session.request.r = none) :
    (receiveBin llen).ReturnsUnchanged w g ↔ (receiveBin llen).Harmless w := by
  have noBody (size : Int32) := @readRequestBody_outside g size outside
  by_cases isZero : llen = 0
  · subst isZero
    cases garbage : w.uninitialised with
    | true =>
        have ran : run w (.receiveBin 0) g = (.failed .ended, g) := by simp [run, garbage]
        exact iff_of_false (not_returnsUnchanged_of ran) fun is => by simp [Harmless, garbage] at is
    | false =>
        have ran : run w (.receiveBin 0) g = (.returned (.raw []), g) := by
          simp [run, garbage, onSession, Session.receiveBin, EntryEnd.ofCall]
        exact iff_of_true (returnsUnchanged_of ran) ⟨rfl, garbage⟩
  · refine iff_of_false ?_ fun is => isZero is.1
    have reads : ∃ callEnd, run w (.receiveBin llen) g = (.ofCall callEnd, g) ∧
        (callEnd = .ended ∨ callEnd = .unfinished) := by
      rcases Int32.lt_or_lt_of_ne isZero with negative | positive
      · have notPositive : ¬ 0 < llen := Int32.not_lt.mpr (Int32.le_of_lt negative)
        cases isFuel : w.fuel with
        | zero =>
            refine ⟨.unfinished, ?_, .inr rfl⟩
            simp [run, isZero, onSession, Session.receiveBin, notPositive, negative, isFuel,
              Session.receiveAll]
        | succ fuel =>
            refine ⟨.ended, ?_, .inl rfl⟩
            simp [run, isZero, onSession, Session.receiveBin, notPositive, negative, isFuel,
              Session.receiveAll, noBody]
      · refine ⟨.ended, ?_, .inl rfl⟩
        simp [run, isZero, onSession, Session.receiveBin, positive, noBody]
    rcases reads with ⟨callEnd, ran, isEnd⟩
    rintro ⟨value, g', returned, -⟩
    rw [ran] at returned
    rcases isEnd with rfl | rfl
    · cases returned
    · cases returned

/-- Outside of requests every function returns and changes nothing, but those that read, and
`urlEncode` and `urlDecode` of a string that they cannot code. -/
theorem outside_requests_iff (w : EntryWorld) (entry : EntryPoint) (g : Globals)
    (outside : g.session.request.r = none) (typed : entry.WellTyped) :
    entry.ReturnsUnchanged w g ↔ entry.Harmless w := by
  have harmless {entry : EntryPoint} {value : RValue} (is : entry.Harmless w)
      (ran : entry.run w g = (.returned value, g)) :
      entry.ReturnsUnchanged w g ↔ entry.Harmless w :=
    ⟨fun _ => is, fun _ => returnsUnchanged_of ran⟩
  cases entry with
  | setHeader header value =>
      rcases typed with ⟨element, elements, isData⟩
      refine @harmless _ (.logical false) trivial ?_
      simp [run, RApache.setHeader, RArgument.char, isData, outside, EntryEnd.ofDotCall]
  | setStatus status =>
      refine @harmless _ (.logical false) trivial ?_
      simp [run, onSession, Session.setStatus, outside, EntryEnd.ofCall]
  | setContentType stype =>
      refine @harmless _ (.logical false) trivial ?_
      simp [run, onSession, Session.setContentType, outside, EntryEnd.ofCall]
  | setCookie args =>
      refine @harmless _ (.logical false) trivial ?_
      simp [run, RApache.setCookie, outside, EntryEnd.ofDotCall]
  | urlEnDecode str enc =>
      cases str with
      | none => exact @harmless _ .null trivial rfl
      | some str =>
          have coded := urlEnDecode_isSome_iff w.locale w.old enc str
          cases isCode : RApache.urlEnDecode w.locale w.old enc str with
          | none =>
              rw [isCode] at coded
              have ran : run w (.urlEnDecode (some str) enc) g = (.failed .error, g) := by
                simp only [run, isCode]
              exact iff_of_false (not_returnsUnchanged_of ran) fun all => by cases coded.mpr all
          | some strings =>
              rw [isCode] at coded
              refine @harmless _ (.character strings) (coded.mp rfl) ?_
              simp only [run, isCode]
  | rApacheInfo =>
      refine @harmless _ .null trivial ?_
      simp [run, outside]
  | parseGet =>
      refine @harmless _ .null trivial ?_
      simp [run, onSession, Session.parseGet, outside, EntryEnd.ofCall]
  | parsePost =>
      refine @harmless _ .null trivial ?_
      simp [run, onSession, Session.parsePost, outside, EntryEnd.ofCall]
  | parseFiles =>
      refine @harmless _ .null trivial ?_
      simp [run, onSession, Session.parsePost, outside, EntryEnd.ofCall]
  | parseCookies =>
      refine @harmless _ .null trivial ?_
      simp [run, onSession, Session.parseCookies, outside, EntryEnd.ofCall]
  | getServer =>
      refine @harmless _ .null trivial ?_
      simp [run, onSession, Session.getServer, outside, EntryEnd.ofCall]
  | sendBin object ssize sswap =>
      refine @harmless _ .null trivial ?_
      simp [run, rApacheSendBin, outside, EntryEnd.ofSendBin]
  | receiveBin llen => exact receiveBin_iff llen outside
  | internals str =>
      cases str with
      | none => exact @harmless _ .null trivial rfl
      | some str => exact @harmless _ (g.session.internals str) trivial rfl
  | showMessage text writer =>
      cases writer with
      | none => exact @harmless _ .null trivial rfl
      | some writer =>
          refine @harmless _ .null trivial ?_
          cases writer with
          | writeConsoleEx =>
              simp [run, onSession, Session.writeConsoleEx, Session.writeConsoleErrorOnly, outside,
                EntryEnd.ofCall]
          | writeConsoleErrorOnly =>
              simp [run, onSession, Session.writeConsoleErrorOnly, outside, EntryEnd.ofCall]
  | writeConsoleEx buf errorFlag =>
      refine @harmless _ .null trivial ?_
      simp [run, onSession, Session.writeConsoleEx, Session.writeConsoleErrorOnly, outside,
        EntryEnd.ofCall]
  | writeConsoleErrorOnly buf =>
      refine @harmless _ .null trivial ?_
      simp [run, onSession, Session.writeConsoleErrorOnly, outside, EntryEnd.ofCall]
  | writeConsoleStderr buf => exact @harmless _ .null trivial rfl
  | readConsole size =>
      have ran : run w (.readConsole size) g = (.failed .ended, g) := by
        simp [run, onSession, Session.readConsole, readRequestBody_outside size outside,
          EntryEnd.ofCall]
      exact ⟨not_returnsUnchanged_of ran, False.elim⟩

end EntryPoint

/-- No request, and surroundings of which nothing is needed. -/
def startupWorld : EntryWorld where
  fuel := 1
  locale _ := false
  old _ := 0
  dates := plainDates
  platform := ⟨.little, true, fun _ => 0, none⟩
  info g := (.unfinished, g)
  uninitialised := false

/-- A header is set while R starts. -/
theorem startup_header_is_ignored :
    (EntryPoint.setHeader { data := .character [some (bytes "Expires")] }
      { data := .null }).ReturnsUnchanged startupWorld {} :=
  (EntryPoint.outside_requests_iff startupWorld
    (.setHeader { data := .character [some (bytes "Expires")] } { data := .null }) {} rfl
    ⟨_, _, rfl⟩).mpr trivial

/-- `receiveBin()` while R starts reads `MR_Request.r` to log that it is `NULL`. -/
theorem startup_read_ends_child :
    (∃ g, (EntryPoint.receiveBin (-1)).run startupWorld {} = (.failed .ended, g)) ∧
    (∃ g, (EntryPoint.readConsole 80).run startupWorld {} = (.failed .ended, g)) ∧
    ¬ ∀ (w : EntryWorld) (entry : EntryPoint) (g : Globals), g.session.request.r = none →
      entry.WellTyped → entry.ReturnsUnchanged w g := by
  refine ⟨⟨{}, rfl⟩, ⟨{}, rfl⟩, fun all => ?_⟩
  have ran : (EntryPoint.readConsole 80).run startupWorld {} = (.failed .ended, {}) := rfl
  exact EntryPoint.not_returnsUnchanged_of ran (all startupWorld (.readConsole 80) {} rfl trivial)

end RApache
