import QueryFilter.Server.Exchange

/-!
# The program

The words of the command line are the options of the server.  Requests are read from standard input,
one a line: a method, a target, and perhaps a JSON body.  For each a line with status and content is
written.  No backend is connected.
-/

namespace QueryFilter

/-- The request on a line. -/
def Request.ofLine (line : String) : Request :=
  let (method, rest) := (Text.cut? ' ' line).getD (line, "")
  let (target, body) := (Text.cut? ' ' rest).getD (rest, "")
  { method, target, contentType := some "application/json", body }

/-- The line for a response. -/
def Response.line (response : Response) : String :=
  Decimal.natText response.status ++ " " ++ response.content.text

/-- The line that answers the request on a line. -/
def Server.answerLine (options : ServerOptions) (line : String) : String :=
  ((Server.exchange options (.ofLine line)).finish fun _ => .unreachable).line

/-- Answers the lines of the input. -/
partial def serve (options : ServerOptions) (input output : IO.FS.Stream) : IO Unit := do
  let line ← input.getLine
  if line.isEmpty then return
  let request := String.ofList (line.toList.filter fun c => c != '\n' && c != '\r')
  output.putStrLn (Server.answerLine options request)
  output.flush
  serve options input output

end QueryFilter

open QueryFilter in
/-- Starts the server with the options on the command line. -/
def main (words : List String) : IO UInt32 := do
  match ServerOptions.ofWords words with
  | .error stop =>
    IO.println stop.message
    return if stop = .help ∨ stop = .version then 0 else 2
  | .ok options =>
    if options.originsAreHeaders then
      serve options (← IO.getStdin) (← IO.getStdout)
      return 0
    else
      IO.println "failed to parse header value"
      return 1
