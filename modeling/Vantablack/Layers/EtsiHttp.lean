import Vantablack.Net.Bypass
import Vantablack.Lib.Pieces

/-!
The HTTP client of `layers/l10_qel_etsi.rs`, from the point where the request has been sent: the
response is read from a connection that hands out its bytes in reads of any size. The debug format
of a text, the text of a JSON error body and the texts of input errors are parameters.
-/

namespace Vantablack.Layers

open Net Lib

def maxHeaderBytes : ℕ := 16 * 1024
def maxBodyBytes : ℕ := 64 * 1024

/-- The errors that an exchange can end with. -/
inductive Etsi014Error where
  | transport (text : String)
  | http (status : ℕ) (message : String)
  | protocol (text : String)
  deriving DecidableEq, Repr

structure HttpResponse where
  status : ℕ
  body : Bytes
  deriving DecidableEq, Repr

/-- Why there is no response: an error, a panic, or more rounds than the model was given. -/
inductive Failure where
  | error (error : Etsi014Error)
  | panicked
  | unfinished
  deriving DecidableEq, Repr

/-- Texts that come from other crates. -/
structure HttpTexts where
  debug : List Char → String
  errorMessage : Bytes → String

/-- What is still to be read: the results of the reads, and how the connection ends, with an input
error or closed by the peer. -/
structure Connection where
  reads : List Bytes
  broken : Option String
  deriving DecidableEq, Repr

/-- Addition on `usize`. With overflow checks an overflow is a panic, without them it wraps. -/
def addUsize (checks : Bool) (a b : ℕ) : Option ℕ :=
  if a + b < 2 ^ 64 then some (a + b) else if checks then none else some ((a + b) % 2 ^ 64)

def crlf : Bytes := [13, 10]

/-! ### Chunked bodies -/

/-- What `read_more` makes of the end of the connection. -/
def readMoreError (broken : Option String) : Etsi014Error :=
  match broken with
  | some e => .transport ("reading chunked body: " ++ e)
  | none => .protocol "connection closed mid-chunked-body"

inductive ParseIntError where
  | empty
  | invalidDigit
  | posOverflow
  deriving DecidableEq, Repr

def ParseIntError.text : ParseIntError → String
  | .empty => "cannot parse integer from empty string"
  | .invalidDigit => "invalid digit found in string"
  | .posOverflow => "number too large to fit in target type"

/-- `char::to_digit(16)`. -/
def hexDigit (c : Char) : Option ℕ :=
  let n := c.toNat
  if 48 ≤ n ∧ n ≤ 57 then some (n - 48)
  else if 97 ≤ n ∧ n ≤ 102 then some (n - 87)
  else if 65 ≤ n ∧ n ≤ 70 then some (n - 55)
  else none

/-- The digits of `from_str_radix`, behind the sign. -/
def readHex : ℕ → List Char → Except ParseIntError ℕ
  | value, [] => .ok value
  | value, c :: digits =>
      match hexDigit c with
      | none => .error .invalidDigit
      | some d =>
          if value * 16 + d < 2 ^ 64 then readHex (value * 16 + d) digits else .error .posOverflow

/-- `usize::from_str_radix` for hexadecimal numbers. -/
def fromStrRadix16 (s : List Char) : Except ParseIntError ℕ :=
  match s with
  | [] => .error .empty
  | ['+'] | ['-'] => .error .invalidDigit
  | '+' :: digits => readHex 0 digits
  | digits => readHex 0 digits

/-- `trim_start_matches("0x")`. -/
def trimStart0x : List Char → List Char
  | '0' :: 'x' :: rest => trimStart0x rest
  | s => s

def chunkSize (sizeLine : List Char) : Except ParseIntError ℕ :=
  fromStrRadix16 (trimStart0x (Text.trim (sizeLine.takeWhile (· ≠ ';'))))

/-- When the search for a word in the buffer is over: where the word is, or with an error when the
buffer has grown too long without it. -/
def searchDone (needle : Bytes) (tooLong : String) (buf : Bytes) :
    Option (Except Etsi014Error ℕ) :=
  match findSubslice buf needle with
  | some i => some (.ok i)
  | none => if maxHeaderBytes < buf.length then some (.error (.protocol tooLong)) else none

def sizeLineDone : Bytes → Option (Except Etsi014Error ℕ) :=
  searchDone crlf "malformed chunked response (no size line)"

/-- When the buffer holds as many bytes as are wanted. -/
def filled (wanted : ℕ) (buf : Bytes) : Option Unit :=
  if buf.length < wanted then none else some ()

/-- `read_chunked`, with the bytes that are left over from the header. A round takes the size line
and the data of one chunk. -/
def readChunked (texts : HttpTexts) (checks : Bool) (broken : Option String) :
    ℕ → Bytes → Bytes → List Bytes → Except Failure Bytes
  | 0, _, _, _ => .error .unfinished
  | rounds + 1, out, rest, reads =>
      match readUntil sizeLineDone rest reads with
      | none => .error (.error (readMoreError broken))
      | some (.error e, _, _) => .error (.error e)
      | some (.ok lineEnd, rest, reads) =>
          let sizeLine := (fromUtf8Lossy (rest.take lineEnd)).toList
          match chunkSize sizeLine with
          | .error e =>
              .error (.error (.protocol
                ("malformed chunk size " ++ texts.debug sizeLine ++ ": " ++ e.text)))
          | .ok size =>
              let rest := rest.drop (lineEnd + 2)
              if size = 0 then .ok out
              else
                match addUsize checks out.length size with
                | none => .error .panicked
                | some total =>
                    if maxBodyBytes < total then
                      .error (.error (.protocol
                        ("chunked body exceeded the " ++ toString maxBodyBytes ++ "-byte cap")))
                    else
                      match addUsize checks size 2 with
                      | none => .error .panicked
                      | some wanted =>
                          match readUntil (filled wanted) rest reads with
                          | none => .error (.error (readMoreError broken))
                          | some ((), rest, reads) =>
                              if rest.length < size then .error .panicked
                              else
                                readChunked texts checks broken rounds (out ++ rest.take size)
                                  (rest.drop wanted) reads

/-! ### The response -/

/-- `str::split("\r\n")`. -/
def splitCrlf : List Char → List (List Char)
  | [] => [[]]
  | '\r' :: '\n' :: rest => [] :: splitCrlf rest
  | c :: rest =>
      match splitCrlf rest with
      | [] => [[c]]
      | line :: lines => (c :: line) :: lines

/-- The status and the headers, with names in lower case. -/
def parseHead (texts : HttpTexts) (head : List Char) :
    Except Etsi014Error (ℕ × List (List Char × List Char)) :=
  let lines := splitCrlf head
  let statusLine := lines.headD []
  match (Text.splitWhitespace statusLine)[1]?.bind (parseUnsigned (2 ^ 16)) with
  | none => .error (.protocol ("malformed status line from KME: " ++ texts.debug statusLine))
  | some status =>
      .ok (status, (lines.tail.filterMap (splitOnce ':')).map fun header =>
        (asciiLower (Text.trim header.1), Text.trim header.2))

/-- The first header of a name. -/
def header (headers : List (List Char × List Char)) (name : String) : Option (List Char) :=
  (headers.find? fun header => header.1 = name.toList).map Prod.snd

/-- How the end of a body is marked. -/
inductive Framing where
  | chunked
  | sized (len : ℕ)
  | untilClose
  deriving DecidableEq, Repr

def framing (headers : List (List Char × List Char)) : Framing :=
  if (header headers "transfer-encoding").any fun v =>
      (findSubslice (asciiLower v) "chunked".toList).isSome then .chunked
  else
    match (header headers "content-length").bind (parseUnsigned (2 ^ 64)) with
    | some len => .sized len
    | none => .untilClose

/-- What the loops of the other bodies make of an input error. -/
def bodyError (e : String) : Failure := .error (.transport ("reading response body: " ++ e))

/-- The body, with the bytes that are left over from the header. -/
def readBody (texts : HttpTexts) (checks : Bool) (broken : Option String) (framing : Framing)
    (rest : Bytes) (reads : List Bytes) : Except Failure Bytes :=
  match framing with
  | .chunked =>
      readChunked texts checks broken (rest.length + reads.flatten.length + 1) [] rest reads
  | .sized len =>
      if maxBodyBytes < len then
        .error (.error (.protocol ("KME announced a " ++ toString len ++ "-byte body, over the " ++
          toString maxBodyBytes ++ "-byte cap")))
      else
        match readUntil (filled len) rest reads with
        | some ((), rest, _) => .ok (rest.take len)
        | none =>
            match broken with
            | some e => .error (bodyError e)
            | none => .ok ((rest ++ reads.flatten).take len)
  | .untilClose =>
      match readUntil (filled (maxBodyBytes + 1)) rest reads with
      | some _ =>
          .error (.error (.protocol "KME sent no length and more than the body cap"))
      | none =>
          match broken with
          | some e => .error (bodyError e)
          | none => .ok (rest ++ reads.flatten)

def headerEnd : Bytes := [13, 10, 13, 10]

def headersDone : Bytes → Option (Except Etsi014Error ℕ) :=
  searchDone headerEnd ("KME response headers exceeded " ++ toString maxHeaderBytes ++ " bytes")

/-- The answer that `http_exchange` reads from a connection. -/
def httpExchange (texts : HttpTexts) (checks : Bool) (io : Connection) :
    Except Failure HttpResponse :=
  match readUntil headersDone [] io.reads with
  | none =>
      match io.broken with
      | some e => .error (.error (.transport ("reading response: " ++ e)))
      | none =>
          .error (.error (.protocol
            "KME closed the connection before sending complete headers"))
  | some (.error e, _, _) => .error (.error e)
  | some (.ok headEnd, buf, reads) => do
      let head := (fromUtf8Lossy (buf.take headEnd)).toList
      match parseHead texts head with
      | .error e => .error (.error e)
      | .ok (status, headers) =>
          let body ← readBody texts checks io.broken (framing headers) (buf.drop (headEnd + 4)) reads
          if 200 ≤ status ∧ status < 300 then .ok { status, body }
          else .error (.error (.http status (texts.errorMessage body)))

end Vantablack.Layers
