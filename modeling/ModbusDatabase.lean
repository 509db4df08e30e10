import ModbusDatabase.Flush
import ModbusDatabase.ReadBack
import ModbusDatabase.ReportFidelity
import ModbusDatabase.Service
import ModbusDatabase.Session
import ModbusDatabase.Quoting
import ModbusDatabase.Subscriptions
import ModbusDatabase.Library.FileSystem
import ModbusDatabase.Logging
import ModbusDatabase.Archives
import ModbusDatabase.Rotation
import ModbusDatabase.ArchiveCount
import ModbusDatabase.ActiveFile
import ModbusDatabase.Cleanup
import ModbusDatabase.DbFiles
import ModbusDatabase.Tokens
import ModbusDatabase.Directories
import ModbusDatabase.Payloads
import ModbusDatabase.Outcome
import ModbusDatabase.Network
