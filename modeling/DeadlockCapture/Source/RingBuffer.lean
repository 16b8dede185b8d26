import DeadlockCapture.Source.Fault
import DeadlockCapture.Text.Quoted

/-!
The query that reads the recorded deadlocks from the ring buffer of an extended-events session. The
session's name becomes part of the query, so only plain names are accepted.
-/

namespace DeadlockCapture.Source.RingBuffer

def defaultSession : String :=
  "datadog"

def isPlain (c : Char) : Bool :=
  c.isAlphanum || c == '_' || c == '-'

def isSessionName (name : String) : Bool :=
  !name.isEmpty && name.toList.all isPlain

def queryHead : String :=
  "SELECT TOP (@limit)\n" ++
  "    xdr.value('@timestamp', 'datetime2') AS event_timestamp,\n" ++
  "    CAST(xdr.query('.') AS nvarchar(max)) AS event_xml\n" ++
  "FROM (\n" ++
  "    SELECT CAST(xt.target_data AS XML) AS target_data\n" ++
  "    FROM sys.dm_xe_session_targets AS xt\n" ++
  "    INNER JOIN sys.dm_xe_sessions AS xs ON xs.address = xt.event_session_address\n" ++
  "    WHERE xs.name = N'"

def queryTail : String :=
  "'\n" ++
  "      AND xt.target_name = N'ring_buffer'\n" ++
  ") AS ring\n" ++
  "CROSS APPLY ring.target_data.nodes('RingBufferTarget/event[@name=\"xml_deadlock_report\"]') " ++
  "AS events(xdr)\n" ++
  "WHERE xdr.value('@timestamp', 'datetime2') > @since\n" ++
  "ORDER BY event_timestamp ASC;"

def sessionQuery (name : String) : Except Fault String :=
  if isSessionName name then .ok (queryHead ++ name ++ queryTail)
  else .error (.query ("invalid extended-events session name " ++ Text.Quoted.text name))

def description (name : String) : String :=
  "ring buffer: " ++ name

end DeadlockCapture.Source.RingBuffer
