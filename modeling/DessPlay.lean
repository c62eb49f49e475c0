import DessPlay.Anidb.Record
import DessPlay.Anidb.Relations
import DessPlay.Core.ListEdits
import DessPlay.Core.Refusal
import DessPlay.Core.Spoiler
import DessPlay.Files.Archive
import DessPlay.Files.Scan
import DessPlay.Irc.Nick
import DessPlay.Irc.Privmsg
import DessPlay.Network.Framing
import DessPlay.Network.StreamOpens
import DessPlay.Network.TimeSync
import DessPlay.Oracle.Reply
import DessPlay.Player.DraggedFile
import DessPlay.Player.Drift
import DessPlay.Player.Echo
import DessPlay.Player.Restore
import DessPlay.Presence.Authority
import DessPlay.Presence.Grace
import DessPlay.Presence.KnownUsers
import DessPlay.Replication.FanOut
import DessPlay.Replication.Hub
import DessPlay.Server.AuthLimit
import DessPlay.Server.Hostile
import DessPlay.Server.Outbox
import DessPlay.Server.Position
import DessPlay.Server.Stamps
import DessPlay.Session.AutoPreference
import DessPlay.Session.ChatOsd
import DessPlay.Session.FalseEof
import DessPlay.Sync.LegacyState
import DessPlay.Sync.PlaylistEdit
import DessPlay.Transfer.Ed2k
import DessPlay.Transfer.Recovery
import DessPlay.Transfer.Solicit
import DessPlay.Transfer.Stranded
import DessPlay.Ui.Delivery
