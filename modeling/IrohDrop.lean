import IrohDrop.RustStd
import IrohDrop.Postcard
import IrohDrop.Crypto
import IrohDrop.Message
import IrohDrop.Seal
import IrohDrop.TokenBucket
import IrohDrop.Limits
import IrohDrop.Provider
import IrohDrop.State
import IrohDrop.Policy
import IrohDrop.Base32
import IrohDrop.Ticket
import IrohDrop.Session
import IrohDrop.Intake
import IrohDrop.Fetch
import IrohDrop.Runs
import IrohDrop.Run
import IrohDrop.Calls
import IrohDrop.Moves
import IrohDrop.History
import IrohDrop.Speech
import IrohDrop.Sync
import IrohDrop.SyncPages
import IrohDrop.Delivery
import IrohDrop.CatchUp
import IrohDrop.Uniqueness
import IrohDrop.Tables
import IrohDrop.Restart
import IrohDrop.Paging
import IrohDrop.OfferTable
import IrohDrop.KnownPeers
import IrohDrop.MetPeers
import IrohDrop.OfferRuns
import IrohDrop.ProviderIndex
import IrohDrop.ProviderCaps
import IrohDrop.Convergence
import IrohDrop.Tombstones
import IrohDrop.Bootstrap
import IrohDrop.Backlog
import IrohDrop.Signatures
import IrohDrop.AuthorBytes
import IrohDrop.SyncProofs
import IrohDrop.Stack
import IrohDrop.StackLaws
import IrohDrop.Daemon
import IrohDrop.Leaving
import IrohDrop.TicketTrip
import IrohDrop.AutoFetch
import IrohDrop.Control
import IrohDrop.Consents
import IrohDrop.Collections
import IrohDrop.ManifestPaths
import IrohDrop.CollectionTrips
import IrohDrop.Publishing
import IrohDrop.PublishedOffers
import IrohDrop.FailedPublishes
import IrohDrop.Hearing
import IrohDrop.Promises
import IrohDrop.PoliteLeave
import IrohDrop.SealedFrames
import IrohDrop.FileSystem
import IrohDrop.FetchAny
import IrohDrop.Landing
import IrohDrop.Overwriting
import IrohDrop.Extensions
import IrohDrop.Broadcast
import IrohDrop.Listening
import IrohDrop.OfferHandlers
import IrohDrop.Reservations
import IrohDrop.Inventory
import IrohDrop.Refusals
import IrohDrop.Volume
import IrohDrop.KeptTickets
import IrohDrop.DropStore
import IrohDrop.Persisting
import IrohDrop.PersistSteps
import IrohDrop.TableSaves
import IrohDrop.NameLookup
import IrohDrop.ProviderOrder
import IrohDrop.Numbered
import IrohDrop.EventBus
import IrohDrop.EventReplay
import IrohDrop.Handles
import IrohDrop.Tasks
import IrohDrop.TaskLives
import IrohDrop.Client
import IrohDrop.ClientCalls
import IrohDrop.JoinGrants
import IrohDrop.Membership
import IrohDrop.PersistMoves
import IrohDrop.LeftDrops
import IrohDrop.KeptRows
import IrohDrop.Retention
import IrohDrop.RecentKeys
import IrohDrop.DedupHistory
import IrohDrop.PeerBuckets
import IrohDrop.Links
import IrohDrop.ExportNames
import IrohDrop.Picks
import IrohDrop.ListingNumbers
import IrohDrop.DropTotals
import IrohDrop.Channels
import IrohDrop.TaskWaits
import IrohDrop.TransferRows
import IrohDrop.SyncSchemas
import IrohDrop.SessionEvents
import IrohDrop.ConsentOnce
import IrohDrop.Replies
import IrohDrop.ApiDaemon
import IrohDrop.TwoRuns
import IrohDrop.SideBySide
import IrohDrop.Observers
import IrohDrop.JsonText
import IrohDrop.ReplyCosts
import IrohDrop.ReadableFrames
import IrohDrop.FrameCap
import IrohDrop.FetchRuns
import IrohDrop.Wire
import IrohDrop.AgentCalls
import IrohDrop.GuiQuestions
import IrohDrop.GuiCalls
import IrohDrop.GuiStates
import IrohDrop.RoomRuns
import IrohDrop.Nearby
import IrohDrop.Presence
import IrohDrop.Network
import IrohDrop.SyncServing
