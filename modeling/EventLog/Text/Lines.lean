import EventLog.Pieces
import EventLog.Text.Utf8

/-!
# Lines of a byte stream

Bytes are cut at each line feed.  A piece that a line feed ended loses one carriage return at its
end; the last piece, which none ended, keeps it and is a line only if it is not empty.  Each line
is then read as UTF-8 on its own.
-/

namespace EventLog.Lines

/-- Whether a byte ends a line. -/
def isLineFeed (b : UInt8) : Bool := b == 0x0A

/-- A line without one carriage return at its end. -/
def dropReturn (line : Bytes) : Bytes :=
  if line.getLast? = some 0x0D then line.dropLast else line

/-- The lines that a line feed ended. -/
def ended (bytes : Bytes) : List Text :=
  (pieces isLineFeed bytes).dropLast.map fun line => Utf8.decode (dropReturn line)

/-- The bytes behind the last line feed. -/
def remainder (bytes : Bytes) : Bytes := ((pieces isLineFeed bytes).getLast?).getD []

/-- The line that the end of the bytes ended, if there is one. -/
def unended (bytes : Bytes) : List Text :=
  if remainder bytes = [] then [] else [Utf8.decode (remainder bytes)]

end EventLog.Lines
